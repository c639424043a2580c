import ObjectLayout.Proofs.Expansion.Exploration

/-! What an expansion does for a type, read off the table: which types it visits, when the type is
given its node, and where it stops, in this order. A search performs the tasks of the types that it
comes to, each type once; it needs to remember nothing but which types have a node. A search that
leaves out types which it need not stop at ends as it would have ended otherwise. -/
namespace ObjectLayout

inductive Task where
  | enter
  | visit (part : TypeId)
  | refuse (cause : Unsupported)
  deriving DecidableEq, Repr

def TemplateArgument.tasks : TemplateArgument → List Task
  | .type ty _ | .integral ty _ => [.visit ty]
  | .template (.template _) => []
  | .template (.indirect kind) => [.refuse (.templateName kind)]
  | .unmodelled kind => [.refuse (.argument kind)]

def RecordDef.tasks (x : RecordDef) : List Task :=
  (x.templateArgs.getD []).flatMap TemplateArgument.tasks ++
    (x.bases.flatMap (fun b => [.visit b.ty]) ++ x.fields.flatMap (fun f => [.visit f.ty]))

abbrev Look := List TypeId → Except Unsupported (List TypeId)

def perform (look : TypeId → Look) (ty : TypeId) : List Task → Look
  | [], known => .ok known
  | .enter :: rest, known => perform look ty rest (ty :: known)
  | .visit part :: rest, known => do
      let known ← look part known
      perform look ty rest known
  | .refuse cause :: _, _ => .error cause

theorem performAppend (look : TypeId → Look) (ty : TypeId) (first rest : List Task)
    (known : List TypeId) :
    perform look ty (first ++ rest) known = perform look ty first known >>= perform look ty rest := by
  induction first generalizing known with
  | nil => rfl
  | cons task first ih =>
    cases task with
    | enter => exact ih (ty :: known)
    | refuse cause => rfl
    | visit part =>
      simp only [List.cons_append, perform, bind_assoc]
      exact bind_congr ih

theorem performVisit (look : TypeId → Look) (ty part : TypeId) (known : List TypeId) :
    perform look ty [.visit part] known = look part known := bind_pure _

namespace Table

/- An address that is not followed is not entered either. -/
def classTasks (t : Table) (o : Options) (followed : Bool) : TypeClass → List Task
  | .builtin kind =>
      if (kind.primitive? o.model).isSome then [.enter] else [.refuse (.builtin kind)]
  | .record d =>
      match t.decl? d with
      | some (.record _ (some x)) => .enter :: x.tasks
      | _ => [.enter]
  | .enum _ => [.enter]
  | .pointer target | .reference target => if followed then [.visit target, .enter] else []
  | .array target _ | .synonym _ _ target => [.visit target, .enter]
  | .sugar _ target => [.visit target]
  | .dependentSpecialization => [.refuse (.typeClass SugarForm.specialization.name)]
  | .unmodelled category => [.refuse (.typeClass category.name)]

def tasks (t : Table) (o : Options) (followed : Bool) (ty : TypeId) (e : TypeEntry) : List Task :=
  match e.type.sugarTarget, t.isComplete ty with
  | some inner, _ => [.visit inner]
  | none, .ok true => t.classTasks o followed e.type
  | none, _ => [.enter]

def search (t : Table) (o : Options) : Nat → Bool → TypeId → Look
  | 0, _, _, known => .ok known
  | fuel + 1, followed, ty, known =>
      if ty ∈ known then .ok known
      else
        match t.entry? ty with
        | some e =>
            let below := if e.type.sugarTarget.isSome then followed else o.chasePointers
            perform (t.search o fuel below) ty (t.tasks o followed ty e) known
        | none => .ok known

variable {t : Table} {o : Options}

theorem searchSugar {fuel : Nat} {followed : Bool} {ty inner : TypeId} {e : TypeEntry}
    (found : t.entry? ty = some e) (step : e.type.sugarTarget = some inner) (known : List TypeId) :
    t.search o (fuel + 1) followed ty known =
      if ty ∈ known then .ok known else t.search o fuel followed inner known := by
  simp only [search, found, tasks, step, Option.isSome_some, if_true, performVisit]

theorem searchPlain {fuel : Nat} {followed : Bool} {ty : TypeId} {e : TypeEntry}
    (found : t.entry? ty = some e) (plain : e.type.sugarTarget = none) (known : List TypeId) :
    t.search o (fuel + 1) followed ty known =
      if ty ∈ known then .ok known
      else perform (t.search o fuel o.chasePointers) ty (t.tasks o followed ty e) known := by
  simp only [search, found, plain, Option.isSome_none, Bool.false_eq_true, if_false]

theorem addressTasks {ty : TypeId} {e : TypeEntry} (found : t.entry? ty = some e)
    (address : e.type.pointee ≠ none) : t.tasks o false ty e = [] := by
  have defined := addressComplete found address
  unfold tasks
  rw [defined]
  generalize e.type = c at address
  cases c <;> first | rfl | exact absurd rfl address

theorem recordTasks {x : RecordDef} {task : Task} (member : task ∈ x.tasks) :
    (∃ part ∈ x.mentions, task = .visit part) ∨
      ∃ a ∈ x.templateArgs.getD [], ∃ cause, a.cause? = some cause ∧ task = .refuse cause := by
  simp only [RecordDef.tasks, List.mem_append, List.mem_flatMap, List.mem_singleton] at member
  rcases member with ⟨a, held, task⟩ | ⟨b, held, task⟩ | ⟨f, held, task⟩
  · cases a with
    | type ty isConst | integral ty value =>
      exact .inl ⟨ty, RecordDef.mentionsArgument held rfl, List.mem_singleton.mp task⟩
    | template name =>
      cases name with
      | template qualifiedName => contradiction
      | indirect kind => exact .inr ⟨_, held, _, rfl, List.mem_singleton.mp task⟩
    | unmodelled kind => exact .inr ⟨_, held, _, rfl, List.mem_singleton.mp task⟩
  · exact .inl ⟨b.ty, RecordDef.mentionsBase held, task⟩
  · exact .inl ⟨f.ty, RecordDef.mentionsField held, task⟩

inductive Tasked (t : Table) (o : Options) (ty : TypeId) : Task → Prop
  | enter {e} (found : t.entry? ty = some e) (plain : e.type.sugarTarget = none) :
      Tasked t o ty .enter
  | visit {part} (leads : t.Leads True ty part) : Tasked t o ty (.visit part)
  | refuse {cause} (refuses : t.Refuses o ty cause) : Tasked t o ty (.refuse cause)

theorem classTasked {ty : TypeId} {e : TypeEntry} (found : t.entry? ty = some e)
    (plain : e.type.sugarTarget = none) (defined : t.isComplete ty = .ok true) {followed : Bool}
    {task : Task} (member : task ∈ t.classTasks o followed e.type) : Tasked t o ty task := by
  have leads : ∀ {part}, t.ClassLeads True e.type part → t.Leads True ty part :=
    .complete found defined
  have refuses : ∀ {cause}, t.ClassRefuses o e.type cause → t.Refuses o ty cause :=
    .complete found defined
  have enter : Tasked t o ty .enter := .enter found plain
  generalize e.type = c at plain member leads refuses
  cases c with
  | builtin kind =>
    simp only [classTasks] at member
    split at member
    · cases List.mem_singleton.mp member
      exact enter
    · rename_i unmeasured
      cases List.mem_singleton.mp member
      exact .refuse (refuses (.builtin (by simpa using unmeasured)))
  | record d =>
    simp only [classTasks] at member
    split at member
    · rename_i info x decl
      rcases List.mem_cons.mp member with rfl | later
      · exact enter
      · rcases recordTasks later with ⟨part, mentioned, rfl⟩ | ⟨a, held, cause, refused, rfl⟩
        · exact .visit (leads (.part decl mentioned))
        · exact .refuse (refuses (.argument decl held refused))
    · cases List.mem_singleton.mp member
      exact enter
  | enum d =>
    cases List.mem_singleton.mp member
    exact enter
  | pointer target | reference target =>
    cases followed with
    | false => contradiction
    | true =>
      rcases List.mem_cons.mp member with rfl | later
      · exact .visit (leads (wrapperLeads rfl plain (fun _ => trivial)))
      · cases List.mem_singleton.mp later
        exact enter
  | array target length | synonym form name target =>
    rcases List.mem_cons.mp member with rfl | later
    · exact .visit (leads (wrapperLeads rfl plain (fun _ => trivial)))
    · cases List.mem_singleton.mp later
      exact enter
  | sugar form target => contradiction
  | dependentSpecialization =>
    cases List.mem_singleton.mp member
    exact .refuse (refuses .dependent)
  | unmodelled category =>
    cases List.mem_singleton.mp member
    exact .refuse (refuses (.unmodelled category))

theorem tasked {followed : Bool} {ty : TypeId} {e : TypeEntry} (found : t.entry? ty = some e)
    {task : Task} (member : task ∈ t.tasks o followed ty e) : Tasked t o ty task := by
  unfold tasks at member
  split at member
  · rename_i step
    cases List.mem_singleton.mp member
    exact .visit (.sugar found step)
  · rename_i plain defined
    exact classTasked found plain defined member
  · rename_i plain _
    cases List.mem_singleton.mp member
    exact .enter found plain

open Expansion

def Beside (s : Session) (more known : List TypeId) : Prop :=
  ∀ ty, ty ∈ more ↔ ty ∈ known ∨ s.Knows ty

inductive Aligned (s : Session) :
    Except Unsupported (List TypeId) → Except Unsupported (List TypeId) → Prop
  | stopped (cause : Unsupported) : Aligned s (.error cause) (.error cause)
  | ended {more known} (beside : Beside s more known) : Aligned s (.ok more) (.ok known)

variable {s : Session}

theorem besideEnter {more known : List TypeId} (h : Beside s more known) (ty : TypeId) :
    Beside s (ty :: more) (ty :: known) := by
  intro other
  rw [List.mem_cons, List.mem_cons, h other, or_assoc]

theorem besideKnown {more known : List TypeId} (h : Beside s more known) {ty : TypeId}
    (own : s.Knows ty) : Beside s more (ty :: known) := by
  intro other
  rw [h other, List.mem_cons]
  constructor
  · exact fun here => here.imp_left .inr
  · rintro ((rfl | old) | new)
    · exact .inr own
    · exact .inl old
    · exact .inr new

section
variable (explored : ∀ ty, s.Knows ty → Explored t o s ty)
include explored

theorem performKnown {look : TypeId → Look} {more : List TypeId}
    (visits : ∀ part known, Met t o.chasePointers s part → Beside s more known →
      Aligned s (.ok more) (look part known)) {ty : TypeId} (own : s.Knows ty) {tasks : List Task}
    (each : ∀ task ∈ tasks, Tasked t o ty task) {known : List TypeId} (h : Beside s more known) :
    Aligned s (.ok more) (perform look ty tasks known) := by
  induction tasks generalizing known with
  | nil => exact .ended h
  | cons task rest ih =>
    obtain ⟨first, others⟩ := List.forall_mem_cons.mp each
    cases first with
    | enter found plain => exact ih others (besideKnown h own)
    | refuse refuses => exact absurd refuses ((explored ty own).allowed _)
    | @visit part leads =>
      have below := visits part known ((explored ty own).parts part leads) h
      simp only [perform]
      generalize look part known = found at below ⊢
      cases below with
      | ended beside => exact ih others beside

theorem searchKnown {fuel : Nat} {more : List TypeId}
    (below : ∀ part known, Met t o.chasePointers s part → Beside s more known →
      Aligned s (.ok more) (t.search o fuel o.chasePointers part known)) (followed : Bool)
    {ty : TypeId} (own : s.Knows ty) {known : List TypeId} (h : Beside s more known) :
    Aligned s (.ok more) (t.search o (fuel + 1) followed ty known) := by
  obtain ⟨e, found, plain⟩ := (explored ty own).plain
  rw [searchPlain found plain]
  split
  · exact .ended h
  · exact performKnown explored below own (fun _ => tasked found) h

theorem searchMet {fuel : Nat} {ty : TypeId} {more known : List TypeId}
    (met : Met t o.chasePointers s ty) (h : Beside s more known) :
    Aligned s (.ok more) (t.search o fuel o.chasePointers ty known) := by
  induction fuel generalizing ty known with
  | zero => exact .ended h
  | succ fuel ih =>
    cases met with
    | known own => exact searchKnown explored (fun _ _ => ih) _ own h
    | address address unfollowed =>
      obtain ⟨e, found, pointee⟩ := address
      simp only [search, found, unfollowed, addressTasks found pointee, perform]
      split <;> exact .ended h
    | sugar found step rest =>
      rw [searchSugar found step]
      split
      · exact .ended h
      · exact ih rest h

end

theorem performAligned {look : TypeId → Look}
    (visits : ∀ part more known, Beside s more known →
      Aligned s (look part more) (look part known)) {ty : TypeId} {tasks : List Task}
    {more known : List TypeId} (h : Beside s more known) :
    Aligned s (perform look ty tasks more) (perform look ty tasks known) := by
  induction tasks generalizing more known with
  | nil => exact .ended h
  | cons task rest ih =>
    cases task with
    | enter => exact ih (besideEnter h ty)
    | refuse cause => exact .stopped cause
    | visit part =>
      have below := visits part more known h
      simp only [perform]
      generalize look part more = left, look part known = right at below ⊢
      cases below with
      | stopped cause => exact .stopped cause
      | ended beside => exact ih beside

theorem searchAligned (explored : ∀ ty, s.Knows ty → Explored t o s ty) (fuel : Nat) (followed : Bool)
    (ty : TypeId) {more known : List TypeId} (h : Beside s more known) :
    Aligned s (t.search o fuel followed ty more) (t.search o fuel followed ty known) := by
  induction fuel generalizing followed ty more known with
  | zero => exact .ended h
  | succ fuel ih =>
    by_cases here : ty ∈ known
    · have there : ty ∈ more := (h ty).mpr (.inl here)
      simp only [search, if_pos here, if_pos there]
      exact .ended h
    · by_cases there : ty ∈ more
      · have own := ((h ty).mp there).resolve_left here
        rw [search, if_pos there]
        exact searchKnown explored (fun _ _ met beside => searchMet explored met beside) followed own h
      · simp only [search, if_neg here, if_neg there]
        split
        · exact performAligned (fun part _ _ beside => ih _ part beside) h
        · exact .ended h

end Table
end ObjectLayout
