import ObjectLayout.Proofs.Expansion.Tasks

/-! An expansion performs the tasks of the types that it comes to. It ends as the search does, in a
session that gives a node to the types that the search ends with. Of a step that is at fault nothing
is said; that there is none is known from elsewhere. -/
namespace ObjectLayout.Expansion

def Shadows (s : Session) (known : List TypeId) : Prop := ∀ ty, s.Knows ty ↔ ty ∈ known

def Follows {α : Type} (s : Session) (x : Step α) (found : Except Unsupported (List TypeId)) :
    Prop :=
  Meets s x (fun _ last => last.depth = s.depth ∧ ∃ known, found = .ok known ∧ Shadows last known)
    (fun e _ => ∀ cause, e = .unsupported cause → found = .error cause)

variable {α β : Type} {s : Session} {known : List TypeId}

theorem followsPure (h : Shadows s known) (a : α) : Follows s (pure a) (.ok known) :=
  ⟨rfl, known, rfl, h⟩

theorem followsFault (f : Fault) (found : Except Unsupported (List TypeId)) :
    Follows s (throw (.fault f) : Step α) found := by
  rintro cause ⟨⟩

theorem followsRefuse (cause : Unsupported) : Follows s (refuse cause : Step α) (.error cause) := by
  rintro _ ⟨⟩
  rfl

theorem followsRun {x y : Step α} {s' : Session} {found : Except Unsupported (List TypeId)}
    (run : x s = y s') (depth : s'.depth = s.depth) (h : Follows s' y found) : Follows s x found :=
  meetsRun run (meetsMono h (fun _ _ ended => ⟨ended.1.trans depth, ended.2⟩)
    (fun _ _ stopped => stopped))

theorem followsThen {x : Step α} {f : α → Step β} {found : Except Unsupported (List TypeId)}
    {rest : Look} (first : Follows s x found)
    (next : ∀ a last known, last.depth = s.depth → Shadows last known →
      Follows last (f a) (rest known)) :
    Follows s (x >>= f) (found >>= rest) := by
  refine meetsBind first ?_ ?_
  · intro e last stopped cause same
    rw [stopped cause same]
    rfl
  · rintro a last ⟨depth, known, rfl, shadows⟩
    exact meetsMono (next a last known depth shadows)
      (fun _ _ ended => ⟨ended.1.trans depth, ended.2⟩) (fun _ _ stopped => stopped)

theorem followsEnd {x : Step α} {f : α → Step β} {found : Except Unsupported (List TypeId)}
    (h : Follows s x found)
    (last : ∀ a last known, Shadows last known → Follows last (f a) (.ok known)) :
    Follows s (x >>= f) found := by
  have both := followsThen h (fun a final known _ => last a final known)
  have same : (found >>= Except.ok) = found := bind_pure found
  rwa [same] at both

theorem followsMap {x : Step α} {found : Except Unsupported (List TypeId)} (h : Follows s x found)
    (make : α → β) : Follows s (do let a ← x; pure (make a)) found :=
  followsEnd h (fun a _ _ shadows => followsPure shadows (make a))

variable {look : TypeId → Look} {ty : TypeId}

theorem followsMapM {f : α → Step β} {tasks : α → List Task} {xs : List α}
    (each : ∀ a ∈ xs, ∀ s' known, s'.depth = s.depth → Shadows s' known →
      Follows s' (f a) (perform look ty (tasks a) known)) (h : Shadows s known) :
    Follows s (xs.mapM f) (perform look ty (xs.flatMap tasks) known) := by
  induction xs generalizing s known with
  | nil =>
    rw [List.mapM_nil]
    exact followsPure h []
  | cons a rest ih =>
    rw [List.mapM_cons, List.flatMap_cons, performAppend]
    apply followsThen (each a List.mem_cons_self s known rfl h)
    intro b last known depth shadows
    exact followsMap (ih (fun x member s' known level =>
      each x (List.mem_cons_of_mem a member) s' known (level.trans depth)) shadows) (b :: ·)

theorem shadowsEnter (h : Shadows s known) (n : Node) : Shadows (s.enter ty n) (ty :: known) := by
  intro other
  rw [knowsEnter, List.mem_cons, h other]

theorem followsRegisterNew (h : Shadows s known) (n : Node) :
    Follows s (registerNew ty n) (.ok (ty :: known)) := by
  unfold Follows Meets
  cases looked : s.lookup ty with
  | some id =>
    rw [registerNewKnown looked]
    refine ⟨rfl, ty :: known, rfl, fun other => ?_⟩
    rw [h other, List.mem_cons]
    refine ⟨.inr, ?_⟩
    rintro (rfl | old)
    · exact (h other).mp ⟨id, looked⟩
    · exact old
  | none =>
    rw [registerNewFresh looked]
    exact ⟨rfl, ty :: known, rfl, shadowsEnter h n⟩

def VisitsFollow (visit : TypeId → Step NodeId) (look : TypeId → Look) : Prop :=
  ∀ part s known, 0 < s.depth → Shadows s known → Follows s (visit part) (look part known)

variable {t : Table} {o : Options} {visit : TypeId → Step NodeId}

section
variable (visits : VisitsFollow visit look) (deep : 0 < s.depth) (h : Shadows s known)
include visits deep h

theorem partFollows (part : TypeId) (make : NodeId → β) :
    Follows s (do let id ← visit part; pure (make id)) (perform look ty [.visit part] known) := by
  rw [performVisit]
  exact followsMap (visits part s known deep h) make

theorem paramFollows (a : TemplateArgument) :
    Follows s (expandParam visit a) (perform look ty a.tasks known) := by
  cases a with
  | type part isConst => exact partFollows visits deep h part _
  | integral part value => exact partFollows visits deep h part _
  | template name =>
    cases name with
    | template qualifiedName => exact followsPure h _
    | indirect kind => exact followsRefuse _
  | unmodelled kind => exact followsRefuse _

theorem wrapperFollows {target : TypeId} {next : NodeId → Step NodeId}
    (registers : ∀ id last known, Shadows last known →
      Follows last (next id) (.ok (ty :: known))) :
    Follows s (visit target >>= next) (perform look ty [.visit target, .enter] known) :=
  followsThen (visits target s known deep h) (fun id last known _ shadows =>
    registers id last known shadows)

theorem recordFollows (sound : t.Sound) {followed : Bool} {e : TypeEntry} {d : DeclId}
    (found : t.entry? ty = some e) (same : e.type = .record d)
    (defined : t.isComplete ty = .ok true) :
    Follows s (expandRecord t visit ty d)
      (perform look ty (t.classTasks o followed (.record d)) known) := by
  obtain ⟨info, x, decl, _⟩ := Table.completeRecord sound found same defined
  obtain ⟨size, sized⟩ := Table.sizeInBitsAnswers sound (Table.entryInRange found)
  obtain ⟨align, aligned⟩ := Table.alignInBitsAnswers sound (Table.entryInRange found)
  have tasks : t.classTasks o followed (.record d) = .enter :: x.tasks := by
    simp only [Table.classTasks, decl]
  have start : 0 < (s.enter ty (.record (hollow info size align))).depth := deep
  apply followsRun (expandRecordRuns decl sized aligned) rfl
  rw [tasks, perform, RecordDef.tasks, performAppend]
  apply followsThen (followsMapM (fun a _ s known level h =>
    paramFollows visits (level ▸ start) h a) (shadowsEnter h _))
  intro params s₂ known₂ second first
  rw [performAppend]
  apply followsThen (followsMapM (fun b _ s known level h =>
    partFollows visits (level ▸ second ▸ start) h b.ty _) first)
  intro parents s₃ known₃ third second'
  apply followsEnd (followsMapM (fun f _ s known level h =>
    partFollows visits (level ▸ third ▸ second ▸ start) h f.ty _) second')
  intro members s₄ known₄ last
  obtain ⟨g, filled⟩ := fillRunsOn s₄ ⟨s.graph.nodes.size⟩ (fun r =>
    { r with
      params := params
      parents := parents
      members := layoutOrder members
      functions := x.methods.map (fun m => ⟨m.name, m.isVirtual⟩) })
  unfold Follows Meets
  rw [filled]
  exact ⟨rfl, known₄, rfl, last⟩

end

theorem enumFollows (sound : t.Sound) {e : TypeEntry} {d : DeclId} (h : Shadows s known)
    (found : t.entry? ty = some e) (same : e.type = .enum d)
    (defined : t.isComplete ty = .ok true) :
    Follows s (expandEnum t o ty d) (.ok (ty :: known)) := by
  obtain ⟨name, x, decl⟩ := Table.completeEnum sound found same defined
  obtain ⟨size, sized⟩ := Table.sizeInBitsAnswers sound (Table.entryInRange found)
  unfold Follows Meets
  rw [expandEnumRuns decl sized]
  exact ⟨rfl, ty :: known, rfl, shadowsEnter h _⟩

theorem builtinFollows (h : Shadows s known) (followed : Bool) (kind : Builtin) :
    Follows s
      (match kind.primitive? o.model with
        | some p => do
            let id ← primitive p
            register ty id
        | none => refuse (.builtin kind))
      (perform look ty (t.classTasks o followed (.builtin kind)) known) := by
  cases measured : kind.primitive? o.model with
  | none =>
    have tasks : t.classTasks o followed (.builtin kind) = [.refuse (.builtin kind)] := by
      simp [Table.classTasks, measured]
    rw [tasks]
    exact followsRefuse _
  | some p =>
    have tasks : t.classTasks o followed (.builtin kind) = [.enter] := by
      simp [Table.classTasks, measured]
    rw [tasks]
    refine ⟨rfl, ty :: known, rfl, fun other => ?_⟩
    have entered := knowsShareFor s ty other p
    rw [h other, ← List.mem_cons] at entered
    exact entered

theorem stubFollows (h : Shadows s known) (kind : Primitive) :
    Follows s (primitive kind) (.ok known) :=
  ⟨rfl, known, rfl, h⟩

section
variable (visits : VisitsFollow visit look) (deep : 0 < s.depth) (h : Shadows s known)
include visits deep h

theorem pointerFollows (pointee : TypeId) :
    Follows s (expandPointer o visit ty pointee)
      (perform look ty (t.classTasks o (o.follows s.depth) (.pointer pointee)) known) := by
  apply meetsRun (getRuns _)
  cases follows : o.follows s.depth with
  | true =>
    rw [if_pos rfl]
    exact wrapperFollows visits deep h (fun _ _ _ shadows => followsRegisterNew shadows _)
  | false =>
    rw [if_neg Bool.false_ne_true]
    exact stubFollows h _

theorem referenceFollows (pointee : TypeId) :
    Follows s (expandReference o visit ty pointee)
      (perform look ty (t.classTasks o (o.follows s.depth) (.reference pointee)) known) := by
  apply meetsRun (getRuns _)
  cases follows : o.follows s.depth with
  | false =>
    rw [if_neg Bool.false_ne_true]
    exact stubFollows h _
  | true =>
    rw [if_pos rfl]
    apply wrapperFollows visits deep h
    intro id last known shadows
    apply meetsRun (getRuns _)
    cases got : last.graph.node id with
    | error f => exact followsFault f _
    | ok n =>
      rw [askOk rfl, pure_bind]
      split <;> exact followsRegisterNew shadows _

theorem typeFollows (sound : t.Sound) {e : TypeEntry} (found : t.entry? ty = some e)
    (plain : e.type.sugarTarget = none) :
    Follows s (expandType t o visit ty e.type)
      (perform look ty (t.tasks o (o.follows s.depth) ty e) known) := by
  obtain ⟨complete, defined⟩ := Table.isCompleteAnswers sound (Table.entryInRange found)
  obtain ⟨name, named⟩ := Table.displayNameAnswers sound (Table.entryInRange found)
  cases complete with
  | false =>
    unfold Follows Meets
    rw [expandIncompleteRuns defined named, Table.tasks, plain, defined]
    exact ⟨rfl, ty :: known, rfl, shadowsEnter h _⟩
  | true =>
    have tasks : t.tasks o (o.follows s.depth) ty e =
        t.classTasks o (o.follows s.depth) e.type := by
      rw [Table.tasks, plain, defined]
    unfold expandType
    rw [askOk defined, pure_bind, if_pos rfl, tasks]
    cases same : e.type with
    | builtin kind => exact builtinFollows h _ kind
    | record d => exact recordFollows visits deep h sound found same defined
    | enum d => exact enumFollows sound h found same defined
    | pointer pointee => exact pointerFollows visits deep h pointee
    | reference pointee => exact referenceFollows visits deep h pointee
    | array element length | synonym form name target =>
      exact wrapperFollows visits deep h (fun _ _ _ shadows => followsRegisterNew shadows _)
    | sugar form target =>
      rw [same] at plain
      contradiction
    | dependentSpecialization | unmodelled category => exact followsRefuse _

end

theorem followsDeeper {x : Step α} {found : Except Unsupported (List TypeId)}
    (h : Follows { s with depth := s.depth + 1 } x found) : Follows s (deeper x) found := by
  refine meetsDeeper (meetsMono h ?_ (fun _ _ stopped => stopped))
  intro a last ended
  refine ⟨?_, ended.2⟩
  simp only [ended.1]
  omega

theorem expandFollows (sound : t.Sound) (fuel : Nat) (ty : TypeId) (h : Shadows s known) :
    Follows s (Expansion.expand t o fuel ty) (t.search o fuel (o.follows (s.depth + 1)) ty known) := by
  induction fuel generalizing ty s known with
  | zero => exact followsFault _ _
  | succ fuel ih =>
    by_cases member : ty ∈ known
    · obtain ⟨id, looked⟩ := (h ty).mpr member
      unfold Follows Meets
      rw [Expansion.expand, expandWithKnown looked, Table.search, if_pos member]
      exact ⟨rfl, known, rfl, h⟩
    · have fresh : s.lookup ty = none := by
        cases looked : s.lookup ty with
        | none => rfl
        | some id => exact absurd ((h ty).mp ⟨id, looked⟩) member
      cases found : t.entry? ty with
      | none =>
        unfold Follows Meets
        rw [Expansion.expand, expandWithMissing fresh found]
        intro cause same
        contradiction
      | some e =>
        apply meetsRun (expandWithFresh fresh found)
        cases step : e.type.sugarTarget with
        | some inner =>
          rw [Table.searchSugar found step, if_neg member]
          exact ih inner h
        | none =>
          rw [Table.searchPlain found step, if_neg member]
          have visits : VisitsFollow (Expansion.expand t o fuel) (t.search o fuel o.chasePointers) := by
            intro part s known deep shadows
            have below := ih part shadows
            rwa [followsBelow deep] at below
          have down : Shadows { s with depth := s.depth + 1 } known := h
          exact followsDeeper (typeFollows visits (Nat.succ_pos _) down sound found step)

end ObjectLayout.Expansion
