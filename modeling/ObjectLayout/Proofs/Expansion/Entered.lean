import ObjectLayout.Proofs.Expansion.Answers

/-! The type of a call is entered in the memo, whatever graph the session works on. An address below
it may end at the stub, which is entered for nothing; the outermost address never does, since it is
followed at the depth it is met at. -/
namespace ObjectLayout.Expansion

variable {t : Table} {o : Options} {precise : Prop}

def Enters (s : Session) (ty : TypeId) (x : Step NodeId) : Prop :=
  Meets s x (fun id last => last.lookup ty = some id) (fun _ _ => True)

theorem registerNewEnters (s : Session) (ty : TypeId) (n : Node) :
    Enters s ty (registerNew ty n) := by
  unfold Enters Meets
  cases looked : s.lookup ty with
  | some id =>
    rw [registerNewKnown looked]
    exact looked
  | none =>
    rw [registerNewFresh looked]
    exact Session.lookupEntered s ty n

theorem thenEnters {α : Type} {s : Session} {ty : TypeId} {x : Step α} {f : α → Step NodeId}
    (next : ∀ a last, Enters last ty (f a)) : Enters s ty (x >>= f) := by
  have first : Meets s x (fun _ _ => True) (fun _ _ => True) := by
    unfold Meets
    split <;> trivial
  exact meetsThen first (fun a last _ => next a last)

theorem filledEnters {s last : Session} {ty : TypeId} {d : DeclId} {id : NodeId}
    (filled : Filled t o precise s ty d id last) : last.lookup ty = some id := by
  cases filled with
  | @parts old r last empty built described =>
    have grown := Session.advanceGrown built.path
    exact grown.memo ty _ (Session.lookupEntered s ty (.record old))

theorem referenceEnters {visit : TypeId → Step NodeId} {s : Session} (ty pointee : TypeId)
    (follows : o.follows s.depth = true) : Enters s ty (expandReference o visit ty pointee) := by
  apply meetsRun (getRuns _)
  rw [if_pos follows]
  apply thenEnters
  intro id mid
  apply meetsRun (getRuns _)
  apply thenEnters
  intro n last
  split <;> exact registerNewEnters _ _ _

theorem typeEnters (sound : t.Sound) {visit room} (visits : Visits t o precise visit room)
    {s : Session} (ready : Ready t o precise s) (top : s.depth = 1) {ty : TypeId} {e : TypeEntry}
    (fresh : s.lookup ty = none) (found : t.entry? ty = some e)
    (plain : e.type.sugarTarget = none) (roomy : cost t s ty ≤ room) :
    Enters s ty (expandType t o visit ty e.type) := by
  have follows : o.follows s.depth = true := by simp [Options.follows, top]
  have deep : 0 < s.depth := by omega
  obtain ⟨complete, defined⟩ := Table.isCompleteAnswers sound (Table.entryInRange found)
  obtain ⟨name, named⟩ := Table.displayNameAnswers sound (Table.entryInRange found)
  cases complete with
  | false =>
    unfold Enters Meets
    rw [expandIncompleteRuns defined named]
    exact Session.lookupEntered s ty _
  | true =>
    unfold expandType
    rw [askOk defined, pure_bind, if_pos rfl]
    cases same : e.type with
    | builtin kind =>
      cases measured : kind.primitive? o.model with
      | none => simp only [measured]; trivial
      | some p =>
        simp only [measured]
        exact (Session.lookupShareFor s ty ty p).trans (if_pos rfl)
    | record d =>
      have visitsParts := visitsRecord visits deep fresh found same defined roomy
      exact meetsMono (recordFills sound ready fresh found same defined visitsParts)
        (fun _ _ filled => filledEnters filled) (fun _ _ _ => trivial)
    | enum d =>
      obtain ⟨name, x, decl⟩ := Table.completeEnum sound found same defined
      obtain ⟨size, sized⟩ := Table.sizeInBitsAnswers sound (Table.entryInRange found)
      unfold Enters Meets
      simp only [expandEnumRuns decl sized]
      exact Session.lookupEntered s ty _
    | pointer pointee =>
      apply meetsRun (getRuns _)
      rw [if_pos follows]
      exact thenEnters (fun _ _ => registerNewEnters _ _ _)
    | reference pointee => exact referenceEnters ty pointee follows
    | array element length => exact thenEnters (fun _ _ => registerNewEnters _ _ _)
    | synonym form name target => exact thenEnters (fun _ _ => registerNewEnters _ _ _)
    | sugar form target =>
      rw [same] at plain
      contradiction
    | dependentSpecialization => trivial
    | unmodelled category => trivial

theorem expandEnters (sound : t.Sound) {room : Nat} {s : Session} (ready : Ready t o precise s)
    (top : s.depth = 0)
    (known : ∀ ty id, s.lookup ty = some id → ∃ e, t.entry? ty = some e ∧ e.type.sugarTarget = none)
    {ty : TypeId} (inside : ty.raw < t.types.size) (roomy : cost t s ty < room) :
    Meets s (Expansion.expand t o room ty)
      (fun id last => ∃ target, t.Desugars ty target ∧ last.lookup target = some id)
      (fun _ _ => True) := by
  induction room generalizing ty with
  | zero => exact absurd roomy (Nat.not_lt_zero _)
  | succ room ih =>
    cases looked : s.lookup ty with
    | some id =>
      obtain ⟨e, found, plain⟩ := known ty id looked
      unfold Meets
      rw [Expansion.expand, expandWithKnown looked]
      exact ⟨ty, .plain found plain, looked⟩
    | none =>
      obtain ⟨e, found⟩ := Table.entryOfRange inside
      apply meetsRun (expandWithFresh looked found)
      cases step : e.type.sugarTarget with
      | some inner =>
        have falls := sound.wraps found (sugarWraps step)
        have below : Meets s (Expansion.expand t o room inner)
            (fun id last => ∃ target, t.Desugars inner target ∧ last.lookup target = some id)
            (fun _ _ => True) := by
          apply ih (Nat.lt_trans falls inside)
          simp only [cost] at roomy ⊢
          omega
        refine meetsMono below ?_ (fun _ _ _ => trivial)
        rintro id last ⟨target, path, entered⟩
        exact ⟨target, .sugar found step path, entered⟩
      | none =>
        have down : Advance t o s { s with depth := s.depth + 1 } := .single (.level _)
        have enters := typeEnters sound (expandAnswers sound room) (readyAfter ready down)
          (by simp [top]) looked found step (Nat.le_of_lt_succ roomy)
        exact meetsDeeper (meetsMono enters
          (fun _ _ entered => ⟨ty, .plain found step, entered⟩) (fun _ _ _ => trivial))

end ObjectLayout.Expansion
