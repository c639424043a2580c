import ObjectLayout.Proofs.Session.Refusal

/-! A type that was answered once. No later call takes its node away, so it is answered with the same
node again, and nothing is built for it. -/
namespace ObjectLayout.Session

open Expansion

variable {t : Table} {o : Options} {precise : Prop}

theorem knownRuns {s : Session} (explored : AllExplored t o s) {ty last : TypeId}
    (path : t.Desugars ty last) {id : NodeId} (looked : s.lookup last = some id) (room : Nat) :
    Meets s (Expansion.expand t o room ty) (fun a final => a = id ∧ final = s)
      (fun e _ => e = .fault .endless) := by
  induction path generalizing room with
  | plain found plain => exact expandKnown looked room
  | @sugar ty e inner last found step rest ih =>
    cases room with
    | zero => rfl
    | succ room =>
      have fresh : s.lookup ty = none := by
        cases entered : s.lookup ty with
        | none => rfl
        | some other =>
          obtain ⟨e', at_ty, plain⟩ := (explored ty ⟨other, entered⟩).plain
          cases found.symm.trans at_ty
          cases step.symm.trans plain
      apply meetsRun (expandWithFresh fresh found)
      simp only [step]
      exact ih looked room

theorem expandAgain (sound : t.Sound) {s : Session} (ready : Ready t o precise s)
    (explored : AllExplored t o s) {ty last : TypeId} (inside : ty.raw < t.types.size)
    (path : t.Desugars ty last) {id : NodeId} (looked : s.lookup last = some id) :
    s.expand t o ty = .ok (.ok id, { s with depth := 0 }) := by
  have top : Ready t o precise { s with depth := 0 } := readyAfter ready (.single (.level 0))
  have known : Session.lookup { s with depth := 0 } last = some id := looked
  have both := meetsBoth (knownRuns (exploredLevel explored 0) path known (fuel t))
    (expandAnswers sound (fuel t) _ ty top inside (costFuel _ inside))
  unfold Meets at both
  unfold expand
  cases run : Expansion.expand t o (fuel t) ty { s with depth := 0 } with
  | ok a final =>
    simp only [run] at both
    obtain ⟨⟨rfl, rfl⟩, _⟩ := both
    rfl
  | error e final =>
    simp only [run] at both
    obtain ⟨rfl, stopped⟩ := both
    obtain ⟨cause, other⟩ := stopped.cause
    contradiction

theorem answerMemo (sound : t.Sound) {s s' : Session} (ready : Ready t o precise s) {call : Call} {a}
    (ended : s.answer t o call = .ok (a, s')) {ty : TypeId} {id : NodeId}
    (looked : s.lookup ty = some id) : s'.lookup ty = some id := by
  cases a with
  | error cause => exact (refusalAhead sound ready ended).memo ty id looked
  | ok top =>
    obtain ⟨last, outcome, rfl | ⟨root, _, rfl⟩⟩ := answerOutcome sound ready ended
    all_goals
      cases outcome with
      | node path described child => exact (advanceGrown path).memo ty id looked

end ObjectLayout.Session
