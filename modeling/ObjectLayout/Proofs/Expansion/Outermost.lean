import ObjectLayout.Proofs.Expansion.Exploration

/-! What is entered last, where addresses are not followed. An address is entered only if it is what
was asked for, and then after everything that it leads to. -/
namespace ObjectLayout.Expansion

variable {t : Table} {o : Options}

structure Inward (t : Table) (o : Options) (s last : Session) : Prop where
  path : Advance t o s last
  described : Described t o s last
  older : ∀ ty, t.IsAddress ty → last.Knows ty → s.Knows ty

inductive Outermost (t : Table) (o : Options) (s : Session) : Session → Prop
  | inward {last} (inward : Inward t o s last) : Outermost t o s last
  | address {mid} (inward : Inward t o s mid) (ty : TypeId) {n : Node} (other : ∀ r, n ≠ .record r) :
      Outermost t o s (mid.enter ty n)

theorem inwardRefl (s : Session) : Inward t o s s :=
  ⟨.refl, fun _ _ looked => .inl looked, fun _ _ known => known⟩

theorem inwardLevel {s last : Session} {down up : Nat}
    (h : Inward t o { s with depth := down } last) : Inward t o s { last with depth := up } := by
  have before : Advance t o s { s with depth := down } := .single (.level down)
  have after : Advance t o last { last with depth := up } := .single (.level up)
  refine ⟨advanceTrans before (advanceTrans h.path after), ?_, h.older⟩
  intro ty id looked
  exact describedGrown (Session.advanceGrown after) h.described looked

theorem progressInward (unchased : o.chasePointers = false) {asked : TypeId → Prop}
    {s last : Session} (progress : Progress t o True s last) (explores : Explores t o asked s last)
    (none : ∀ ty, t.IsAddress ty → ¬ asked ty) : Inward t o s last := by
  refine ⟨progress.path, progress.described trivial, ?_⟩
  intro ty address known
  rcases explores.followed ty known address with before | chases | wanted
  · exact before
  · rw [unchased] at chases
    contradiction
  · exact absurd wanted (none ty address)

theorem expandInward (sound : t.Sound) (unchased : o.chasePointers = false) {room : Nat}
    {s : Session} (ready : Ready t o True s) {ty : TypeId} (inside : ty.raw < t.types.size)
    (roomy : cost t s ty < room) (none : ∀ p, t.IsAddress p → ¬ Asked t s ty p) :
    Meets s (Expansion.expand t o room ty) (fun _ last => Inward t o s last) (fun _ _ => True) := by
  have answers := expandAnswers sound room s ty ready inside roomy
  have finds := expandFinds (o := o) sound room s ty
  refine meetsMono (meetsBoth answers finds) ?_ (fun _ _ _ => trivial)
  rintro id last ⟨answered, arrived⟩
  exact progressInward unchased answered.progress arrived.explores none

theorem registerNewOutermost {s mid : Session} (inward : Inward t o s mid) (ty : TypeId) {n : Node}
    (other : ∀ r, n ≠ .record r) :
    Meets mid (registerNew ty n) (fun _ last => Outermost t o s last) (fun _ _ => True) := by
  unfold Meets
  cases looked : mid.lookup ty with
  | some id =>
    rw [registerNewKnown looked]
    exact .inward inward
  | none =>
    rw [registerNewFresh looked]
    exact .address inward ty other

theorem addressOutermost {visit : TypeId → Step NodeId} {s : Session} (top : s.depth = 1)
    {ty : TypeId} {e : TypeEntry} (found : t.entry? ty = some e) (address : e.type.pointee ≠ none)
    (visits : ∀ target, e.type.wrapped = some target →
      Meets s (visit target) (fun _ last => Inward t o s last) (fun _ _ => True)) :
    Meets s (expandType t o visit ty e.type) (fun _ last => Outermost t o s last)
      (fun _ _ => True) := by
  have follows : o.follows s.depth = true := by simp [Options.follows, top]
  unfold expandType
  rw [askOk (addressComplete found address), pure_bind, if_pos rfl]
  cases same : e.type with
  | pointer pointee =>
    apply meetsRun (getRuns _)
    rw [if_pos follows]
    apply meetsThen (visits pointee (by rw [same]; rfl))
    intro id mid inward
    exact registerNewOutermost inward ty (by simp)
  | reference pointee =>
    apply meetsRun (getRuns _)
    rw [if_pos follows]
    apply meetsThen (visits pointee (by rw [same]; rfl))
    intro id mid inward
    apply meetsRun (getRuns _)
    cases got : mid.graph.node id with
    | error f => trivial
    | ok n =>
      rw [askOk rfl, pure_bind]
      split <;> exact registerNewOutermost inward ty (by simp)
  | _ => simp [same, TypeClass.pointee] at address

theorem deeperOutermost {s : Session} {x : Step NodeId}
    (h : Meets { s with depth := s.depth + 1 } x
      (fun _ last => Outermost t o { s with depth := s.depth + 1 } last) (fun _ _ => True)) :
    Meets s (deeper x) (fun _ last => Outermost t o s last) (fun _ _ => True) := by
  refine meetsDeeper (meetsMono h ?_ (fun _ _ _ => trivial))
  intro _ last outermost
  cases outermost with
  | inward inward => exact .inward (inwardLevel inward)
  | @address mid inward ty n other =>
    have up : Inward t o s { mid with depth := mid.depth - 1 } := inwardLevel inward
    exact .address up ty other

theorem expandOutermost (sound : t.Sound) (unchased : o.chasePointers = false) {room : Nat}
    {s : Session} (top : s.depth = 0) (ready : Ready t o True s) {ty : TypeId}
    (inside : ty.raw < t.types.size) (roomy : cost t s ty < room) :
    Meets s (Expansion.expand t o room ty) (fun _ last => Outermost t o s last)
      (fun _ _ => True) := by
  induction room generalizing ty with
  | zero => exact absurd roomy (Nat.not_lt_zero _)
  | succ room ih =>
    cases looked : s.lookup ty with
    | some id =>
      unfold Meets
      rw [Expansion.expand, expandWithKnown looked]
      exact .inward (inwardRefl s)
    | none =>
      obtain ⟨e, found⟩ := Table.entryOfRange inside
      cases step : e.type.sugarTarget with
      | some inner =>
        have falls := sound.wraps found (sugarWraps step)
        apply meetsRun (expandWithFresh looked found)
        simp only [step]
        apply ih (Nat.lt_trans falls inside)
        simp only [cost] at roomy ⊢
        omega
      | none =>
        by_cases address : e.type.pointee = none
        · refine meetsMono (expandInward sound unchased ready inside roomy ?_)
            (fun _ _ inward => .inward inward) (fun _ _ _ => trivial)
          rintro p isAddress ⟨_, path⟩
          rw [Table.desugarsPlain found step path] at isAddress
          exact notAddress found address isAddress
        · apply meetsRun (expandWithFresh looked found)
          simp only [step]
          apply deeperOutermost
          have down : Advance t o s { s with depth := s.depth + 1 } := .single (.level _)
          refine addressOutermost (by simp [top]) found address (fun target wraps => ?_)
          have falls := sound.wraps found wraps
          refine expandInward sound unchased (readyAfter ready down) (Nat.lt_trans falls inside) ?_ ?_
          · have less : cost t { s with depth := s.depth + 1 } target < cost t s ty :=
              Nat.add_lt_add_left falls _
            omega
          · rintro p _ ⟨deep, _⟩
            exact absurd deep (Nat.succ_ne_zero _)

end ObjectLayout.Expansion
