import ObjectLayout.Proofs.Expansion.Answers
import ObjectLayout.Proofs.Expansion.Reach

/-! How far an expansion has looked when it ends. If it stops, then at a type that it had come to. If
it ends with a node, every type that it has entered on the way is one that a layout exists for, and
all that such a type leads to has been met. -/
namespace ObjectLayout

def Session.Knows (s : Session) (ty : TypeId) : Prop := ∃ id, s.lookup ty = some id

namespace Expansion

inductive Met (t : Table) (followed : Bool) (s : Session) : TypeId → Prop
  | known {ty} (known : s.Knows ty) : Met t followed s ty
  | address {ty} (address : t.IsAddress ty) (unfollowed : followed = false) : Met t followed s ty
  | sugar {ty e target} (found : t.entry? ty = some e) (step : e.type.sugarTarget = some target)
      (rest : Met t followed s target) : Met t followed s ty

structure Explored (t : Table) (o : Options) (s : Session) (ty : TypeId) : Prop where
  plain : ∃ e, t.entry? ty = some e ∧ e.type.sugarTarget = none
  allowed : ∀ cause, ¬ t.Refuses o ty cause
  parts : ∀ part, t.Leads True ty part → Met t o.chasePointers s part

structure Explores (t : Table) (o : Options) (asked : TypeId → Prop) (s last : Session) : Prop where
  depth : last.depth = s.depth
  kept : ∀ ty, s.Knows ty → last.Knows ty
  entered : ∀ ty, last.Knows ty → s.Knows ty ∨ Explored t o last ty
  followed : ∀ ty, last.Knows ty → t.IsAddress ty →
    s.Knows ty ∨ o.chasePointers = true ∨ asked ty

structure Arrived (t : Table) (o : Options) (asked : TypeId → Prop) (followed : Bool) (s : Session)
    (ty : TypeId) (last : Session) : Prop where
  explores : Explores t o asked s last
  met : Met t followed last ty

def Blames (t : Table) (o : Options) (asked : TypeId → Prop) (ty : TypeId) (e : Stop) : Prop :=
  ∀ cause, e = .unsupported cause → ∃ last, t.Reaches o asked ty last ∧ t.Refuses o last cause

variable {t : Table} {o : Options} {asked : TypeId → Prop}

theorem metKept {followed} {ty : TypeId} {s s' : Session} (kept : ∀ ty, s.Knows ty → s'.Knows ty)
    (h : Met t followed s ty) : Met t followed s' ty := by
  induction h with
  | known known => exact .known (kept _ known)
  | address address unfollowed => exact .address address unfollowed
  | sugar found step rest ih => exact .sugar found step ih

theorem exploredKept {s s' : Session} (kept : ∀ ty, s.Knows ty → s'.Knows ty) {ty : TypeId}
    (h : Explored t o s ty) : Explored t o s' ty :=
  ⟨h.plain, h.allowed, fun part leads => metKept kept (h.parts part leads)⟩

theorem exploresGraph (s : Session) (g : Graph) : Explores t o asked s { s with graph := g } :=
  ⟨rfl, fun _ known => known, fun _ known => .inl known, fun _ known _ => .inl known⟩

theorem exploresRefl (s : Session) : Explores t o asked s s := exploresGraph s s.graph

theorem exploresTrans {a b c : Session} (first : Explores t o asked a b)
    (second : Explores t o asked b c) : Explores t o asked a c := by
  refine ⟨second.depth.trans first.depth,
    fun ty known => second.kept ty (first.kept ty known), ?_, ?_⟩
  · intro ty known
    rcases second.entered ty known with before | explored
    · rcases first.entered ty before with old | explored
      · exact .inl old
      · exact .inr (exploredKept second.kept explored)
    · exact .inr explored
  · intro ty known address
    rcases second.followed ty known address with before | follows
    · exact first.followed ty before address
    · exact .inr follows

theorem arrivedAfter {followed} {s s' last : Session} {ty : TypeId} (path : Explores t o asked s s')
    (h : Arrived t o asked followed s' ty last) : Arrived t o asked followed s ty last :=
  ⟨exploresTrans path h.explores, h.met⟩

theorem blamesVia {ty part : TypeId} (lead : t.Leads (o.chasePointers = true ∨ asked ty) ty part)
    {e : Stop} (h : Blames t o asked part e) : Blames t o asked ty e := by
  intro cause same
  obtain ⟨last, path, refused⟩ := h cause same
  exact ⟨last, .head lead path, refused⟩

theorem blamesItself {ty : TypeId} {cause : Unsupported} (refused : t.Refuses o ty cause) :
    Blames t o asked ty (.unsupported cause) := by
  intro other same
  cases same
  exact ⟨ty, .refl, refused⟩

theorem blamesFault {ty : TypeId} (f : Fault) : Blames t o asked ty (.fault f) := by
  intro cause same
  contradiction

theorem knowsEnter (s : Session) (ty other : TypeId) (n : Node) :
    (s.enter ty n).Knows other ↔ other = ty ∨ s.Knows other := by
  unfold Session.Knows
  rw [Session.lookupEnter]
  split <;> simp [*]

theorem knowsShareFor (s : Session) (ty other : TypeId) (kind : Primitive) :
    (s.shareFor ty kind).Knows other ↔ other = ty ∨ s.Knows other := by
  unfold Session.Knows
  rw [Session.lookupShareFor]
  split <;> simp [*]

theorem enteredArrives {followed} {s first last : Session} {ty : TypeId}
    (rest : Explores t o asked first last) (depth : first.depth = s.depth)
    (knows : ∀ other, first.Knows other ↔ other = ty ∨ s.Knows other)
    (explored : Explored t o last ty)
    (follows : t.IsAddress ty → o.chasePointers = true ∨ asked ty) :
    Arrived t o asked followed s ty last := by
  refine ⟨⟨rest.depth.trans depth, ?_, ?_, ?_⟩, .known (rest.kept ty ((knows ty).mpr (.inl rfl)))⟩
  · intro other known
    exact rest.kept other ((knows other).mpr (.inr known))
  · intro other known
    rcases rest.entered other known with before | explored
    · rcases (knows other).mp before with same | old
      · exact .inr (same ▸ explored)
      · exact .inl old
    · exact .inr explored
  · intro other known address
    rcases rest.followed other known address with before | follow
    · rcases (knows other).mp before with same | old
      · subst same
        exact .inr (follows address)
      · exact .inl old
    · exact .inr follow

theorem exploredIncomplete {s : Session} {ty : TypeId} {e : TypeEntry}
    (found : t.entry? ty = some e) (plain : e.type.sugarTarget = none)
    (undefined : t.isComplete ty = .ok false) : Explored t o s ty := by
  refine ⟨⟨e, found, plain⟩, ?_, ?_⟩
  · rintro cause ⟨_, defined, _⟩
    simp [undefined] at defined
  · intro part leads
    rcases Table.leadsEntry found leads with step | ⟨defined, _⟩
    · simp [plain] at step
    · simp [undefined] at defined

theorem exploredComplete {s : Session} {ty : TypeId} {e : TypeEntry}
    (found : t.entry? ty = some e) (plain : e.type.sugarTarget = none)
    (allowed : ∀ cause, ¬ t.ClassRefuses o e.type cause)
    (parts : ∀ part, t.ClassLeads True e.type part → Met t o.chasePointers s part) :
    Explored t o s ty := by
  refine ⟨⟨e, found, plain⟩, ?_, ?_⟩
  · exact fun cause refuses => allowed cause (Table.refusesEntry found refuses)
  · intro part leads
    rcases Table.leadsEntry found leads with step | ⟨_, leads⟩
    · simp [plain] at step
    · exact parts part leads

theorem exploredBuiltin {s : Session} {ty : TypeId} {kind : Primitive} (h : t.MeasuredAs o ty kind) :
    Explored t o s ty := by
  obtain ⟨e, builtin, found, same, measured⟩ := h
  refine exploredComplete found (by rw [same]; rfl) ?_ (by rw [same]; rintro _ ⟨⟩)
  rw [same]
  rintro cause ⟨unmeasured⟩
  rw [measured] at unmeasured
  contradiction

def Finds (t : Table) (o : Options) (asked : TypeId → Prop) (followed : Bool) (s : Session)
    (ty : TypeId) (x : Step NodeId) : Prop :=
  Meets s x (fun _ => Arrived t o asked followed s ty) (fun e _ => Blames t o asked ty e)

def Asked (t : Table) (s : Session) (ty target : TypeId) : Prop := s.depth = 0 ∧ t.Desugars ty target

def VisitsFind (t : Table) (o : Options) (visit : TypeId → Step NodeId) : Prop :=
  ∀ s ty, Finds t o (Asked t s ty) (o.follows (s.depth + 1)) s ty (visit ty)

theorem findsMono {followed : Bool} {more : TypeId → Prop} (imp : ∀ ty, asked ty → more ty)
    {s : Session} {ty : TypeId} {x : Step NodeId} (h : Finds t o asked followed s ty x) :
    Finds t o more followed s ty x := by
  refine meetsMono h ?_ ?_
  · rintro _ last ⟨explores, met⟩
    refine ⟨⟨explores.depth, explores.kept, explores.entered, ?_⟩, met⟩
    intro other known address
    exact (explores.followed other known address).imp_right (Or.imp_right (imp other))
  · intro e _ blames cause same
    obtain ⟨last, path, refused⟩ := blames cause same
    exact ⟨last, Table.reachesMono imp path, refused⟩

theorem findsBelow (asked : TypeId → Prop) {visit : TypeId → Step NodeId}
    (visits : VisitsFind t o visit) {s : Session} (deep : 0 < s.depth) (part : TypeId) :
    Finds t o asked o.chasePointers s part (visit part) := by
  have below := visits s part
  rw [followsBelow deep] at below
  exact findsMono (fun ty h => absurd h.1 (Nat.ne_of_gt deep)) below

theorem registerNewFinds {followed} {s : Session} {ty : TypeId} (explored : Explored t o s ty)
    (follows : t.IsAddress ty → o.chasePointers = true ∨ asked ty) (n : Node) :
    Finds t o asked followed s ty (registerNew ty n) := by
  unfold Finds Meets
  cases looked : s.lookup ty with
  | some id =>
    rw [registerNewKnown looked]
    exact ⟨exploresRefl s, .known ⟨id, looked⟩⟩
  | none =>
    rw [registerNewFresh looked]
    have kept : ∀ other, s.Knows other → (s.enter ty n).Knows other :=
      fun other known => (knowsEnter s ty other n).mpr (.inr known)
    have rest : Explores t o asked (s.enter ty n) (s.enter ty n) := exploresRefl _
    exact enteredArrives rest rfl (fun other => knowsEnter s ty other n) (exploredKept kept explored)
      follows

theorem wrapperFinds {followed} {visit : TypeId → Step NodeId} (visits : VisitsFind t o visit)
    {s : Session} (deep : 0 < s.depth) {ty target : TypeId} {e : TypeEntry}
    (found : t.entry? ty = some e) (wraps : e.type.wrapped = some target)
    (plain : e.type.sugarTarget = none) (defined : t.isComplete ty = .ok true)
    (follows : e.type.pointee ≠ none → o.chasePointers = true ∨ asked ty)
    {next : NodeId → Step NodeId}
    (registers : ∀ id s', Explored t o s' ty → Finds t o asked followed s' ty (next id)) :
    Finds t o asked followed s ty (visit target >>= next) := by
  refine meetsBind (findsBelow asked visits deep target) ?_ ?_
  · intro e _ blames
    exact blamesVia (.complete found defined (Table.wrapperLeads wraps plain follows)) blames
  · intro id s' arrived
    have explored : Explored t o s' ty :=
      exploredComplete found plain (Table.wrapperAllowed wraps)
        (fun part leads => Table.wrapperOnly wraps leads ▸ arrived.met)
    exact meetsMono (registers id s' explored) (fun _ _ after => arrivedAfter arrived.explores after)
      (fun _ _ blames => blames)

theorem eachFinds {α β : Type} {f : α → Step β} {P : Session → α → Prop}
    (kept : ∀ {a s s'}, (∀ ty, s.Knows ty → s'.Knows ty) → P s a → P s' a) {ty : TypeId}
    {xs : List α} {s : Session} (deep : 0 < s.depth)
    (each : ∀ a ∈ xs, ∀ s, 0 < s.depth → Meets s (f a)
      (fun _ last => Explores t o asked s last ∧ P last a) (fun e _ => Blames t o asked ty e)) :
    Meets s (xs.mapM f) (fun _ last => Explores t o asked s last ∧ ∀ a ∈ xs, P last a)
      (fun e _ => Blames t o asked ty e) := by
  refine meetsMono (meetsMapM (R := Explores t o asked) (Q := fun s a (_ : β) => P s a)
    exploresRefl exploresTrans (fun path => kept path.kept) ?_) ?_ (fun _ _ blames => blames)
  · intro a member s' path
    exact each a member s' (path.depth ▸ deep)
  · rintro bs last ⟨path, all⟩
    refine ⟨path, fun a member => ?_⟩
    obtain ⟨_, _, held⟩ := pairedWith all.flip member
    exact held

def ArgumentMet (t : Table) (o : Options) (s : Session) (a : TemplateArgument) : Prop :=
  a.cause? = none ∧ ∀ part, a.type? = some part → Met t o.chasePointers s part

theorem argumentMetKept {a : TemplateArgument} {s s' : Session}
    (kept : ∀ ty, s.Knows ty → s'.Knows ty) (h : ArgumentMet t o s a) : ArgumentMet t o s' a :=
  ⟨h.1, fun part mentioned => metKept kept (h.2 part mentioned)⟩

theorem partFinds {α : Type} {visit : TypeId → Step NodeId} (visits : VisitsFind t o visit)
    {s : Session} (deep : 0 < s.depth) {ty part : TypeId}
    (lead : t.Leads (o.chasePointers = true ∨ asked ty) ty part) (make : NodeId → α) :
    Meets s (do let id ← visit part; pure (make id))
      (fun _ last => Explores t o asked s last ∧ Met t o.chasePointers last part)
      (fun e _ => Blames t o asked ty e) := by
  refine meetsBind (findsBelow asked visits deep part) ?_ ?_
  · intro e _ blames
    exact blamesVia lead blames
  · intro id last arrived
    exact ⟨arrived.explores, arrived.met⟩

theorem paramFinds {visit : TypeId → Step NodeId} (visits : VisitsFind t o visit) {s : Session}
    (deep : 0 < s.depth) {ty : TypeId} {a : TemplateArgument}
    (leads : ∀ part, a.type? = some part → t.Leads (o.chasePointers = true ∨ asked ty) ty part)
    (refused : ∀ cause, a.cause? = some cause → t.Refuses o ty cause) :
    Meets s (expandParam visit a)
      (fun _ last => Explores t o asked s last ∧ ArgumentMet t o last a)
      (fun e _ => Blames t o asked ty e) := by
  cases a with
  | type part isConst =>
    refine meetsMono (partFinds visits deep (leads part rfl) _) ?_ (fun _ _ blames => blames)
    rintro _ last ⟨explores, met⟩
    exact ⟨explores, rfl, fun other same => Option.some.inj same ▸ met⟩
  | integral part value =>
    refine meetsMono (partFinds visits deep (leads part rfl) _) ?_ (fun _ _ blames => blames)
    rintro _ last ⟨explores, met⟩
    exact ⟨explores, rfl, fun other same => Option.some.inj same ▸ met⟩
  | template name =>
    cases name with
    | template qualifiedName => exact ⟨exploresRefl s, rfl, by simp [TemplateArgument.type?]⟩
    | indirect kind => exact blamesItself (refused _ rfl)
  | unmodelled kind => exact blamesItself (refused _ rfl)

theorem fillRunsOn (s : Session) (id : NodeId) (f : Record → Record) :
    ∃ g, (do fill id f; pure id : Step NodeId) s = .ok id { s with graph := g } := by
  simp only [fill, bind, EStateM.bind]
  cases s.graph.modifyRecord id f with
  | some g => exact ⟨g, rfl⟩
  | none => exact ⟨s.graph, rfl⟩

theorem notAddress {ty : TypeId} {e : TypeEntry} (found : t.entry? ty = some e)
    (other : e.type.pointee = none) : ¬ t.IsAddress ty := by
  rintro ⟨e', found', address⟩
  rw [found] at found'
  cases Option.some.inj found'
  exact address other

theorem exploredRecord {s : Session} {ty : TypeId} {e : TypeEntry} {d : DeclId} {info : RecordInfo}
    {x : RecordDef} (found : t.entry? ty = some e) (same : e.type = .record d)
    (decl : t.decl? d = some (.record info (some x)))
    (args : ∀ a ∈ x.templateArgs.getD [], ArgumentMet t o s a)
    (bases : ∀ b ∈ x.bases, Met t o.chasePointers s b.ty)
    (fields : ∀ f ∈ x.fields, Met t o.chasePointers s f.ty) : Explored t o s ty := by
  apply exploredComplete found (by rw [same]; rfl)
  · intro cause refused
    rw [same] at refused
    cases refused with
    | argument other member refused =>
      rw [decl] at other
      cases other
      rw [(args _ member).1] at refused
      contradiction
  · intro part leads
    rw [same] at leads
    cases leads with
    | part other member =>
      rw [decl] at other
      cases other
      unfold RecordDef.mentions at member
      rw [List.mem_append, List.mem_append, List.mem_map, List.mem_map, List.mem_filterMap] at member
      obtain (⟨f, inside, rfl⟩ | ⟨b, inside, rfl⟩) | ⟨a, inside, mentioned⟩ := member
      · exact fields f inside
      · exact bases b inside
      · exact (args a inside).2 part mentioned

theorem recordFinds (sound : t.Sound) {followed} {visit : TypeId → Step NodeId}
    (visits : VisitsFind t o visit) {s : Session} (deep : 0 < s.depth) {ty : TypeId} {e : TypeEntry}
    {d : DeclId} (found : t.entry? ty = some e) (same : e.type = .record d)
    (defined : t.isComplete ty = .ok true) :
    Finds t o asked followed s ty (expandRecord t visit ty d) := by
  obtain ⟨info, x, decl, _⟩ := Table.completeRecord sound found same defined
  obtain ⟨size, sized⟩ := Table.sizeInBitsAnswers sound (Table.entryInRange found)
  obtain ⟨align, aligned⟩ := Table.alignInBitsAnswers sound (Table.entryInRange found)
  have leads : ∀ part ∈ x.mentions, t.Leads (o.chasePointers = true ∨ asked ty) ty part :=
    fun part member => .complete found defined (same ▸ .part decl member)
  have refuses : ∀ a ∈ x.templateArgs.getD [], ∀ cause, a.cause? = some cause →
      t.Refuses o ty cause :=
    fun a member cause refused => .complete found defined (same ▸ .argument decl member refused)
  -- the record is entered first, so its parts may lead back to it
  apply meetsRun (expandRecordRuns decl sized aligned)
  have start : 0 < (s.enter ty (.record (hollow info size align))).depth := deep
  apply meetsThen (eachFinds (P := ArgumentMet t o) argumentMetKept start
    (fun a member s deep => paramFinds visits deep
      (fun part mentioned => leads part (RecordDef.mentionsArgument member mentioned))
      (refuses a member)))
  rintro params s₂ ⟨first, args⟩
  apply meetsThen (eachFinds (P := fun s (b : Base) => Met t o.chasePointers s b.ty) metKept
    (first.depth ▸ start) (fun b member s deep =>
      partFinds visits deep (leads b.ty (RecordDef.mentionsBase member)) _))
  rintro parents s₃ ⟨second, bases⟩
  apply meetsThen (eachFinds (P := fun s (f : Field) => Met t o.chasePointers s f.ty) metKept
    (second.depth ▸ first.depth ▸ start) (fun f member s deep =>
      partFinds visits deep (leads f.ty (RecordDef.mentionsField member)) _))
  rintro members s₄ ⟨third, fields⟩
  obtain ⟨g, filled⟩ := fillRunsOn s₄ ⟨s.graph.nodes.size⟩ (fun r =>
    { r with
      params := params
      parents := parents
      members := layoutOrder members
      functions := x.methods.map (fun m => ⟨m.name, m.isVirtual⟩) })
  unfold Meets
  rw [filled]
  have rest : Explores t o asked (s.enter ty (.record (hollow info size align))) s₄ :=
    exploresTrans first (exploresTrans second third)
  have explored : Explored t o s₄ ty := exploredRecord found same decl
    (fun a member => argumentMetKept (fun ty known => third.kept ty (second.kept ty known))
      (args a member))
    (fun b member => metKept third.kept (bases b member)) fields
  have last : Explores t o asked s₄ { s₄ with graph := g } := exploresGraph s₄ g
  exact enteredArrives (exploresTrans rest last) rfl (fun other => knowsEnter s ty other _)
    (exploredKept last.kept explored)
    (fun address => absurd address (notAddress found (by rw [same]; rfl)))

theorem leafArrives {followed} {s : Session} {ty : TypeId} (explored : ∀ s, Explored t o s ty)
    (other : ¬ t.IsAddress ty) (n : Node) : Arrived t o asked followed s ty (s.enter ty n) :=
  enteredArrives (exploresRefl (s.enter ty n)) rfl (fun other => knowsEnter s ty other n)
    (explored _) (fun address => absurd address other)

theorem enumFinds (sound : t.Sound) {followed} {s : Session} {ty : TypeId} {e : TypeEntry}
    {d : DeclId} (found : t.entry? ty = some e) (same : e.type = .enum d)
    (defined : t.isComplete ty = .ok true) :
    Finds t o asked followed s ty (expandEnum t o ty d) := by
  obtain ⟨name, x, decl⟩ := Table.completeEnum sound found same defined
  obtain ⟨size, sized⟩ := Table.sizeInBitsAnswers sound (Table.entryInRange found)
  have explored : ∀ s, Explored t o s ty := fun s =>
    exploredComplete found (by rw [same]; rfl) (by rw [same]; rintro _ ⟨⟩)
      (by rw [same]; rintro _ ⟨⟩)
  have other : ¬ t.IsAddress ty := notAddress found (by rw [same]; rfl)
  unfold Finds Meets
  rw [expandEnumRuns decl sized]
  exact leafArrives explored other _

theorem stubFinds {s : Session} {ty : TypeId} (address : t.IsAddress ty) (kind : Primitive) :
    Finds t o asked false s ty (primitive kind) :=
  ⟨exploresGraph s _, .address address rfl⟩

section
variable {visit : TypeId → Step NodeId} (visits : VisitsFind t o visit) {s : Session}
  (deep : 0 < s.depth) {ty pointee : TypeId} {e : TypeEntry} (found : t.entry? ty = some e)
  (defined : t.isComplete ty = .ok true)
  (follow : o.follows s.depth = true → o.chasePointers = true ∨ asked ty)
include visits deep found defined follow

theorem pointerFinds (same : e.type = .pointer pointee) :
    Finds t o asked (o.follows s.depth) s ty (expandPointer o visit ty pointee) := by
  apply meetsRun (getRuns _)
  cases follows : o.follows s.depth with
  | false =>
    rw [if_neg Bool.false_ne_true]
    exact stubFinds ⟨e, found, by simp [same, TypeClass.pointee]⟩ _
  | true =>
    rw [if_pos rfl]
    refine wrapperFinds visits deep found (by rw [same]; rfl) (by rw [same]; rfl) defined
      (fun _ => follow follows) ?_
    intro id s' explored
    exact registerNewFinds explored (fun _ => follow follows) _

theorem referenceFinds (same : e.type = .reference pointee) :
    Finds t o asked (o.follows s.depth) s ty (expandReference o visit ty pointee) := by
  apply meetsRun (getRuns _)
  cases follows : o.follows s.depth with
  | false =>
    rw [if_neg Bool.false_ne_true]
    exact stubFinds ⟨e, found, by simp [same, TypeClass.pointee]⟩ _
  | true =>
    rw [if_pos rfl]
    refine wrapperFinds visits deep found (by rw [same]; rfl) (by rw [same]; rfl) defined
      (fun _ => follow follows) ?_
    intro id s' explored
    apply meetsRun (getRuns _)
    cases got : s'.graph.node id with
    | error f => exact blamesFault f
    | ok n =>
      rw [askOk rfl, pure_bind]
      split <;> exact registerNewFinds explored (fun _ => follow follows) _

end

theorem builtinFinds {followed} {s : Session} {ty : TypeId} {e : TypeEntry} {kind : Builtin}
    (found : t.entry? ty = some e) (same : e.type = .builtin kind)
    (defined : t.isComplete ty = .ok true) :
    Finds t o asked followed s ty
      (match kind.primitive? o.model with
        | some p => do
            let id ← primitive p
            register ty id
        | none => refuse (.builtin kind)) := by
  cases measured : kind.primitive? o.model with
  | none => exact blamesItself (.complete found defined (same ▸ .builtin measured))
  | some p =>
    exact enteredArrives (exploresRefl (s.shareFor ty p)) rfl
      (fun other => knowsShareFor s ty other p) (exploredBuiltin ⟨e, kind, found, same, measured⟩)
      (fun address => absurd address (notAddress found (by rw [same]; rfl)))

theorem incompleteFinds {followed} {visit : TypeId → Step NodeId} {s : Session} {ty : TypeId}
    {e : TypeEntry} {name : String} (found : t.entry? ty = some e)
    (plain : e.type.sugarTarget = none) (undefined : t.isComplete ty = .ok false)
    (named : t.displayName ty = .ok name) :
    Finds t o asked followed s ty (expandType t o visit ty e.type) := by
  unfold Finds Meets
  rw [expandIncompleteRuns undefined named]
  refine leafArrives (fun s => exploredIncomplete found plain undefined) ?_ _
  rintro ⟨other, at_ty, address⟩
  rw [addressComplete at_ty address] at undefined
  contradiction

theorem typeFinds (sound : t.Sound) {visit : TypeId → Step NodeId} (visits : VisitsFind t o visit)
    {s : Session} (deep : 0 < s.depth) {ty : TypeId} {e : TypeEntry} (found : t.entry? ty = some e)
    (plain : e.type.sugarTarget = none)
    (follow : o.follows s.depth = true → o.chasePointers = true ∨ asked ty) :
    Finds t o asked (o.follows s.depth) s ty (expandType t o visit ty e.type) := by
  obtain ⟨complete, defined⟩ := Table.isCompleteAnswers sound (Table.entryInRange found)
  obtain ⟨name, named⟩ := Table.displayNameAnswers sound (Table.entryInRange found)
  cases complete with
  | false => exact incompleteFinds found plain defined named
  | true =>
    unfold expandType
    rw [askOk defined, pure_bind, if_pos rfl]
    have refuses : ∀ cause, t.ClassRefuses o e.type cause →
        Finds t o asked (o.follows s.depth) s ty (refuse cause) :=
      fun cause refused => blamesItself (.complete found defined refused)
    have wrapper : ∀ target (make : NodeId → Node), e.type.wrapped = some target →
        e.type.pointee = none → Finds t o asked (o.follows s.depth) s ty
          (do let id ← visit target; registerNew ty (make id)) := by
      intro target make wraps other
      refine wrapperFinds visits deep found wraps plain defined (fun h => absurd other h) ?_
      intro id s' explored
      exact registerNewFinds explored (fun address => absurd address (notAddress found other)) _
    cases same : e.type with
    | builtin kind => exact builtinFinds found same defined
    | record d => exact recordFinds sound visits deep found same defined
    | enum d => exact enumFinds sound found same defined
    | pointer pointee => exact pointerFinds visits deep found defined follow same
    | reference pointee => exact referenceFinds visits deep found defined follow same
    | array element length => exact wrapper element _ (by rw [same]; rfl) (by rw [same]; rfl)
    | synonym form name target => exact wrapper target _ (by rw [same]; rfl) (by rw [same]; rfl)
    | sugar form target =>
      rw [same] at plain
      contradiction
    | dependentSpecialization => exact refuses _ (by rw [same]; exact .dependent)
    | unmodelled category => exact refuses _ (by rw [same]; exact .unmodelled category)

theorem deeperFinds {followed} {s : Session} {ty : TypeId} {x : Step NodeId}
    (h : Finds t o asked followed { s with depth := s.depth + 1 } ty x) :
    Finds t o asked followed s ty (deeper x) := by
  refine meetsDeeper (meetsMono h ?_ (fun _ _ blames => blames))
  rintro _ last ⟨explores, met⟩
  have up : ∀ other, last.Knows other → Session.Knows { last with depth := last.depth - 1 } other :=
    fun _ known => known
  refine ⟨⟨?_, explores.kept, ?_, explores.followed⟩, metKept up met⟩
  · simp only [explores.depth]
    omega
  · intro other known
    exact (explores.entered other known).imp_right (exploredKept up)

theorem sugarFinds {visit : TypeId → Step NodeId} (visits : VisitsFind t o visit) {s : Session}
    {ty inner : TypeId} {e : TypeEntry} (found : t.entry? ty = some e)
    (step : e.type.sugarTarget = some inner) :
    Finds t o (Asked t s ty) (o.follows (s.depth + 1)) s ty (visit inner) := by
  have passed : ∀ target, Asked t s inner target → Asked t s ty target :=
    fun target ⟨top, path⟩ => ⟨top, .sugar found step path⟩
  refine meetsMono (findsMono passed (visits s inner)) ?_ ?_
  · rintro _ last ⟨explores, met⟩
    exact ⟨explores, .sugar found step met⟩
  · intro e _ blames
    exact blamesVia (.sugar found step) blames

theorem withFinds (sound : t.Sound) {visit : TypeId → Step NodeId} (visits : VisitsFind t o visit) :
    VisitsFind t o (expandWith t o visit) := by
  intro s ty
  cases looked : s.lookup ty with
  | some id =>
    unfold Finds Meets
    rw [expandWithKnown looked]
    exact ⟨exploresRefl s, .known ⟨id, looked⟩⟩
  | none =>
    cases found : t.entry? ty with
    | none =>
      unfold Finds Meets
      rw [expandWithMissing looked found]
      exact blamesFault _
    | some e =>
      apply meetsRun (expandWithFresh looked found)
      cases step : e.type.sugarTarget with
      | some inner => exact sugarFinds visits found step
      | none =>
        have follow : o.follows (s.depth + 1) = true → o.chasePointers = true ∨ Asked t s ty ty := by
          intro follows
          rcases Nat.eq_zero_or_pos s.depth with top | deep
          · exact .inr ⟨top, .plain found step⟩
          · exact .inl (followsBelow deep ▸ follows)
        exact deeperFinds (typeFinds sound visits (Nat.succ_pos _) found step follow)

theorem expandFinds (sound : t.Sound) (room : Nat) : VisitsFind t o (Expansion.expand t o room) := by
  induction room with
  | zero => exact fun _ _ => blamesFault _
  | succ room ih => exact withFinds sound ih

end Expansion
end ObjectLayout
