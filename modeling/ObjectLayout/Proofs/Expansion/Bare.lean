import ObjectLayout.Proofs.Table.Bare
import ObjectLayout.Proofs.Expansion.Exploration
import ObjectLayout.Proofs.Expansion.Fuel

/-! An expansion over a table and one over the table without its sugar, side by side from one session.
The second does what the first does: sugar is never given a node, takes no level of its own, and every
question that is asked about a type has the same answer in both tables. -/
namespace ObjectLayout.Expansion

def SugarFree (t : Table) (s : Session) : Prop :=
  ∀ ty, s.Knows ty → ∃ e, t.entry? ty = some e ∧ e.type.sugarTarget = none

/- The second step ends as the first one does. Of a first step that is at fault nothing is said; that
there is none is known from elsewhere. -/
def Mirrors {α : Type} (t : Table) (s : Session) (x y : Step α) : Prop :=
  Meets s x (fun a last => y s = .ok a last ∧ SugarFree t last)
    (fun e last => ∀ cause, e = .unsupported cause → y s = .error e last)

variable {α β γ δ : Type} {t : Table} {s : Session}

theorem mirrorsPure (free : SugarFree t s) (a : α) : Mirrors t s (pure a) (pure a) := ⟨rfl, free⟩

theorem mirrorsFault (f : Fault) (y : Step α) : Mirrors t s (throw (.fault f)) y := by
  rintro cause ⟨⟩

theorem mirrorsRefuse (cause : Unsupported) : Mirrors t s (refuse cause : Step α) (refuse cause) :=
  fun _ _ => rfl

theorem mirrorsItself {x : Step α} {a : α} {last : Session} (run : x s = .ok a last)
    (free : SugarFree t last) : Mirrors t s x x := by
  unfold Mirrors Meets
  rw [run]
  exact ⟨rfl, free⟩

theorem mirrorsRun {x y x' y' : Step α} {s' : Session} (first : x s = x' s') (second : y s = y' s')
    (h : Mirrors t s' x' y') : Mirrors t s x y := by
  unfold Mirrors Meets at *
  rw [first, second]
  exact h

theorem mirrorsThen {x y : Step α} {f g : α → Step β} (first : Mirrors t s x y)
    (next : ∀ a last, SugarFree t last → Mirrors t last (f a) (g a)) :
    Mirrors t s (x >>= f) (y >>= g) := by
  refine meetsBind first ?_ ?_
  · intro e last stopped cause same
    simp only [bind, EStateM.bind, stopped cause same]
  · rintro a last ⟨run, free⟩
    unfold Meets
    rw [thenRuns run]
    exact next a last free

theorem mirrorsMapM {f : α → Step β} {g : γ → Step β} {swap : α → γ}
    (each : ∀ a s, SugarFree t s → Mirrors t s (f a) (g (swap a))) (xs : List α)
    (free : SugarFree t s) : Mirrors t s (xs.mapM f) ((xs.map swap).mapM g) := by
  induction xs generalizing s with
  | nil => exact mirrorsPure free []
  | cons a rest ih =>
    rw [List.map_cons, List.mapM_cons, List.mapM_cons]
    apply mirrorsThen (each a s free)
    intro b last free
    apply mirrorsThen (ih free)
    intro bs last free
    exact mirrorsPure free (b :: bs)

theorem mirrorsDeeper {x y : Step α} (h : Mirrors t { s with depth := s.depth + 1 } x y) :
    Mirrors t s (deeper x) (deeper y) := by
  refine meetsDeeper (meetsMono h ?_ ?_)
  · rintro a last ⟨run, free⟩
    simp only [deeper, run]
    exact ⟨trivial, free⟩
  · intro e last stopped cause same
    simp only [deeper, stopped cause same]

theorem mirrorsBelow {x y z : Step α} (below : Below y z) (h : Mirrors t s x y) : Mirrors t s x z := by
  have further : ∀ {r}, (∀ last, r ≠ .error (.fault .endless) last) → y s = r → z s = r := by
    intro r ends run
    rcases below s with ⟨last, ended⟩ | same
    · exact absurd (run.symm.trans ended) (ends last)
    · exact same.symm.trans run
  refine meetsMono h ?_ ?_
  · rintro a last ⟨run, free⟩
    exact ⟨further (by simp) run, free⟩
  · intro e last stopped cause same
    exact further (by simp [same]) (stopped cause same)

theorem freeEnter (free : SugarFree t s) {ty : TypeId} {e : TypeEntry} (found : t.entry? ty = some e)
    (plain : e.type.sugarTarget = none) (n : Node) : SugarFree t (s.enter ty n) := by
  intro other known
  rcases (knowsEnter s ty other n).mp known with same | before
  · exact ⟨e, same ▸ found, plain⟩
  · exact free other before

theorem freeShareFor (free : SugarFree t s) {ty : TypeId} {e : TypeEntry}
    (found : t.entry? ty = some e) (plain : e.type.sugarTarget = none) (kind : Primitive) :
    SugarFree t (s.shareFor ty kind) := by
  intro other known
  rcases (knowsShareFor s ty other kind).mp known with same | before
  · exact ⟨e, same ▸ found, plain⟩
  · exact free other before

theorem registerNewMirrors (free : SugarFree t s) {ty : TypeId} {e : TypeEntry}
    (found : t.entry? ty = some e) (plain : e.type.sugarTarget = none) (n : Node) :
    Mirrors t s (registerNew ty n) (registerNew ty n) := by
  cases looked : s.lookup ty with
  | some id => exact mirrorsItself (registerNewKnown looked n) free
  | none => exact mirrorsItself (registerNewFresh looked n) (freeEnter free found plain n)

def VisitsMirror (t : Table) (visit more : TypeId → Step NodeId) : Prop :=
  ∀ ty s, SugarFree t s → Mirrors t s (visit ty) (more (t.bare ty))

variable {o : Options} {visit more : TypeId → Step NodeId}

theorem partMirrors (visits : VisitsMirror t visit more) (free : SugarFree t s) (ty : TypeId)
    (make : NodeId → β) :
    Mirrors t s (do let id ← visit ty; pure (make id)) (do let id ← more (t.bare ty); pure (make id)) :=
  mirrorsThen (visits ty s free) (fun id _ free => mirrorsPure free (make id))

theorem paramMirrors (visits : VisitsMirror t visit more) (free : SugarFree t s)
    (a : TemplateArgument) :
    Mirrors t s (expandParam visit a) (expandParam more (a.redirect t.bare)) := by
  cases a with
  | type ty isConst => exact partMirrors visits free ty _
  | integral ty value => exact partMirrors visits free ty _
  | template name =>
    cases name with
    | template qualifiedName => exact mirrorsPure free _
    | indirect kind => exact mirrorsRefuse _
  | unmodelled kind => exact mirrorsRefuse _

section
variable (free : SugarFree t s) {ty : TypeId} {e : TypeEntry} (found : t.entry? ty = some e)
  (plain : e.type.sugarTarget = none)
include free found plain

theorem enumMirrors (sound : t.Sound) (alike : t.Alike ty) {d : DeclId} (same : e.type = .enum d)
    (defined : t.isComplete ty = .ok true) :
    Mirrors t s (expandEnum t o ty d) (expandEnum t.bared o ty d) := by
  obtain ⟨name, x, decl⟩ := Table.completeEnum sound found same defined
  obtain ⟨size, sized⟩ := Table.sizeInBitsAnswers sound (Table.entryInRange found)
  refine mirrorsRun (expandEnumRuns decl sized)
    (expandEnumRuns (Table.declBared decl) (alike.size.trans sized)) ?_
  exact mirrorsItself rfl (freeEnter free found plain _)

theorem builtinMirrors (kind : Builtin) :
    Mirrors t s
      (match kind.primitive? o.model with
        | some p => do
            let id ← primitive p
            register ty id
        | none => refuse (.builtin kind))
      (match kind.primitive? o.model with
        | some p => do
            let id ← primitive p
            register ty id
        | none => refuse (.builtin kind)) := by
  cases kind.primitive? o.model with
  | some p => exact mirrorsItself rfl (freeShareFor free found plain p)
  | none => exact mirrorsRefuse _

section
variable (visits : VisitsMirror t visit more)
include visits

theorem recordMirrors (sound : t.Sound) (alike : t.Alike ty) {d : DeclId}
    (same : e.type = .record d) (defined : t.isComplete ty = .ok true) :
    Mirrors t s (expandRecord t visit ty d) (expandRecord t.bared more ty d) := by
  obtain ⟨info, x, decl, _⟩ := Table.completeRecord sound found same defined
  obtain ⟨size, sized⟩ := Table.sizeInBitsAnswers sound (Table.entryInRange found)
  obtain ⟨align, aligned⟩ := Table.alignInBitsAnswers sound (Table.entryInRange found)
  refine mirrorsRun (expandRecordRuns decl sized aligned)
    (expandRecordRuns (Table.declBared decl) (alike.size.trans sized)
      (alike.align.trans aligned)) ?_
  rw [Table.argumentsRedirect]
  apply mirrorsThen (mirrorsMapM (fun a s free => paramMirrors visits free a) _
    (freeEnter free found plain _))
  intro params s₂ free₂
  apply mirrorsThen (mirrorsMapM (fun b s free => partMirrors visits free b.ty _) _ free₂)
  intro parents s₃ free₃
  apply mirrorsThen (mirrorsMapM (fun f s free => partMirrors visits free f.ty _) _ free₃)
  intro members s₄ free₄
  obtain ⟨g, filled⟩ := fillRunsOn s₄ ⟨s.graph.nodes.size⟩ (fun r =>
    { r with
      params := params
      parents := parents
      members := layoutOrder members
      functions := x.methods.map (fun m => ⟨m.name, m.isVirtual⟩) })
  exact mirrorsItself filled free₄

theorem wrapperMirrors (target : TypeId) (make : NodeId → Node) :
    Mirrors t s (do let id ← visit target; registerNew ty (make id))
      (do let id ← more (t.bare target); registerNew ty (make id)) :=
  mirrorsThen (visits target s free) (fun _ _ free => registerNewMirrors free found plain _)

theorem pointerMirrors (pointee : TypeId) :
    Mirrors t s (expandPointer o visit ty pointee)
      (expandPointer o more ty (t.bare pointee)) := by
  refine mirrorsRun (getRuns _) (getRuns _) ?_
  split
  · exact wrapperMirrors free found plain visits pointee _
  · exact mirrorsItself rfl free

theorem referenceMirrors (pointee : TypeId) :
    Mirrors t s (expandReference o visit ty pointee)
      (expandReference o more ty (t.bare pointee)) := by
  refine mirrorsRun (getRuns _) (getRuns _) ?_
  split
  · apply mirrorsThen (visits pointee s free)
    intro id last free
    refine mirrorsRun (getRuns _) (getRuns _) ?_
    cases got : last.graph.node id with
    | error f => exact mirrorsFault f _
    | ok n =>
      rw [askOk rfl, pure_bind]
      split <;> exact registerNewMirrors free found plain _
  · exact mirrorsItself rfl free

theorem typeMirrors (sound : t.Sound) (alike : t.Alike ty) :
    Mirrors t s (expandType t o visit ty e.type)
      (expandType t.bared o more ty (e.type.redirect t.bare)) := by
  obtain ⟨complete, defined⟩ := Table.isCompleteAnswers sound (Table.entryInRange found)
  have otherwise := alike.complete.trans defined
  cases complete with
  | false =>
    obtain ⟨name, named⟩ := Table.displayNameAnswers sound (Table.entryInRange found)
    refine mirrorsRun (expandIncompleteRuns defined named _)
      (expandIncompleteRuns otherwise (alike.name.trans named) _) ?_
    exact mirrorsItself rfl (freeEnter free found plain _)
  | true =>
    unfold expandType
    rw [askOk defined, askOk otherwise, pure_bind, pure_bind, if_pos rfl, if_pos rfl]
    cases same : e.type with
    | builtin kind => exact builtinMirrors free found plain kind
    | record d => exact recordMirrors free found plain visits sound alike same defined
    | enum d => exact enumMirrors free found plain sound alike same defined
    | pointer pointee => exact pointerMirrors free found plain visits pointee
    | reference pointee => exact referenceMirrors free found plain visits pointee
    | array element length => exact wrapperMirrors free found plain visits element _
    | synonym form name target => exact wrapperMirrors free found plain visits target _
    | sugar form target =>
      rw [same] at plain
      contradiction
    | dependentSpecialization | unmodelled category => exact mirrorsRefuse _

end

end

/- Where the first expansion goes through sugar, the second has come further and has fuel to spare. -/
theorem expandMirrors (sound : t.Sound) (unspelled : t.Unspelled) (room : Nat) :
    VisitsMirror t (Expansion.expand t o room) (Expansion.expand t.bared o room) := by
  induction room with
  | zero => exact fun _ _ _ => mirrorsFault _ _
  | succ room ih =>
    intro ty s free
    cases looked : s.lookup ty with
    | some id =>
      obtain ⟨e, found, plain⟩ := free ty ⟨id, looked⟩
      rw [Table.barePlain found plain]
      exact mirrorsRun (expandWithKnown looked) (expandWithKnown looked) (mirrorsPure free id)
    | none =>
      cases found : t.entry? ty with
      | none =>
        unfold Mirrors Meets
        rw [Expansion.expand, expandWithMissing looked found]
        rintro cause ⟨⟩
      | some e =>
        cases step : e.type.sugarTarget with
        | some inner =>
          have first : Expansion.expand t o (room + 1) ty s = Expansion.expand t o room inner s := by
            rw [Expansion.expand, expandWithFresh looked found, step]
          rw [Table.bareSugar sound found step]
          exact mirrorsBelow (belowSucc room _) (meetsRun first (ih inner s free))
        | none =>
          have last : (e.redirect t.bare).type.sugarTarget = none :=
            (Table.sugarRedirect e.type t.bare).trans (by rw [step]; rfl)
          rw [Table.barePlain found step]
          refine mirrorsRun ((expandWithFresh looked found).trans (by rw [step]))
            ((expandWithFresh looked (Table.entryBared found)).trans (by rw [last])) ?_
          have down : SugarFree t { s with depth := s.depth + 1 } := free
          have alike := Table.plainAlike sound unspelled found step
          exact mirrorsDeeper (typeMirrors down found step ih sound alike)

end ObjectLayout.Expansion
