import ObjectLayout.Proofs.Session.Ending
import ObjectLayout.Proofs.Session.Residue

/-! Calls that were refused can be taken out of a history. What they leave in the memo lets a session
run ahead of the one without them, and sessions of which one is ahead of the other answer alike. -/
namespace ObjectLayout.Session

open Expansion

variable {t : Table} {o : Options} {precise : Prop}

theorem stoppedResolved (sound : t.Sound) {s last : Session} (ready : Ready t o precise s)
    {ty : TypeId} (inside : ty.raw < t.types.size) {e : Stop}
    (stopped : Expansion.expand t o (fuel t) ty s = .error e last) : Resolved t last := by
  have ends := expandAnswers sound (fuel t) s ty ready inside (costFuel s inside)
  unfold Meets at ends
  rw [stopped] at ends
  exact changesResolved ends.path ready.resolved

theorem rollbackAhead {s r : Session} (h : Ahead t o s r) (first : Resolved t s)
    (second : Resolved t r) (m : Mark) : Ahead t o (s.rollback m) (r.rollback m) := by
  refine ⟨?_, ?_, ?_⟩
  · simp only [rollback, h.graph]
  · intro ty id looked
    obtain ⟨known, older⟩ := (lookupRollback second).mp looked
    exact (lookupRollback first).mpr ⟨h.memo ty id known, older⟩
  · intro ty id looked
    obtain ⟨known, older⟩ := (lookupRollback first).mp looked
    rcases h.extra ty id known with same | ⟨kind, measured, slot⟩
    · exact .inl ((lookupRollback second).mpr ⟨same, older⟩)
    · exact .inr ⟨kind, measured, Graph.slotRollbackSome.mpr ⟨slot, older⟩⟩

theorem expandAhead (sound : t.Sound) {s r s' : Session} (h : Ahead t o s r)
    (first : Ready t o precise s) (second : Ready t o precise r) {ty : TypeId} {a}
    (ended : s.expand t o ty = .ok (a, s')) :
    ∃ r', r.expand t o ty = .ok (a, r') ∧ Ahead t o s' r' := by
  have inside := expandInside first.resolved ended
  have level : Abreast t o { s with depth := 0 } { r with depth := 0 } :=
    ⟨⟨h.graph, h.memo, h.extra⟩, rfl⟩
  have atTop : ∀ {s : Session}, Ready t o precise s → Ready t o precise { s with depth := 0 } :=
    fun ready => readyAfter ready (.single (.level 0))
  have both := togetherExpand (fuel t) ty _ _ level
  unfold expand at ended ⊢
  generalize front : Expansion.expand t o (fuel t) ty { s with depth := 0 } = x at both ended
  generalize behind : Expansion.expand t o (fuel t) ty { r with depth := 0 } = y at both ⊢
  cases both with
  | ok id related =>
    cases ended
    exact ⟨_, rfl, related.ahead⟩
  | error e related =>
    cases e with
    | fault f => contradiction
    | unsupported cause =>
      cases ended
      refine ⟨_, rfl, ?_⟩
      rw [h.graph]
      exact rollbackAhead related.ahead (stoppedResolved sound (atTop first) inside front)
        (stoppedResolved sound (atTop second) inside behind) _

theorem finishAhead {s r : Session} (h : Ahead t o s r) (call : Call)
    (a : Except Unsupported NodeId) : Ahead t o (s.finish call a) (r.finish call a) := by
  cases call with
  | expand ty => exact h
  | expandRoot ty =>
    cases a with
    | error cause => exact h
    | ok id =>
      refine ⟨?_, h.memo, h.extra⟩
      simp only [finish, addRoot, h.graph]

theorem answerAhead (sound : t.Sound) {s r s' : Session} (h : Ahead t o s r)
    (first : Ready t o precise s) (second : Ready t o precise r) {call : Call} {a}
    (ended : s.answer t o call = .ok (a, s')) :
    ∃ r', r.answer t o call = .ok (a, r') ∧ Ahead t o s' r' := by
  obtain ⟨last, expanded, same⟩ := answerExpands ended
  obtain ⟨other, runs, related⟩ := expandAhead sound h first second expanded
  rw [same]
  exact ⟨other.finish call a, by rw [answerRuns, runs]; rfl, finishAhead related call a⟩

def answered (calls : List Call) (answers : List (Except Unsupported NodeId)) :
    List (Call × Except Unsupported NodeId) :=
  (calls.zip answers).filter (fun p => p.2.isOk)

theorem runAnswered (sound : t.Sound) {s r last : Session} (h : Ahead t o s r)
    (first : Settled t o precise s) (second : Settled t o precise r) {calls : List Call} {answers}
    (ran : run t o s calls = .ok (answers, last)) :
    ∃ final, run t o r ((answered calls answers).map Prod.fst) =
      .ok ((answered calls answers).map Prod.snd, final) ∧ Ahead t o last final := by
  induction calls generalizing s r answers with
  | nil =>
    simp only [run, Except.ok.injEq, Prod.mk.injEq] at ran
    obtain ⟨rfl, rfl⟩ := ran
    exact ⟨r, rfl, h⟩
  | cons call rest ih =>
    obtain ⟨a, s', as, head, tail, rfl⟩ := runCons ran
    have settled := answerSettled sound first head
    cases a with
    | error cause =>
      -- the session that goes without the call falls behind by what the refusal has left
      have ahead := aheadTrans (refusalAhead sound first.ready head) h
      exact ih ahead settled second tail
    | ok id =>
      obtain ⟨r', answer, ahead⟩ := answerAhead sound h first.ready second.ready head
      obtain ⟨final, others, related⟩ := ih ahead settled (answerSettled sound second answer) tail
      have kept : answered (call :: rest) (.ok id :: as) = (call, .ok id) :: answered rest as := rfl
      refine ⟨final, ?_, related⟩
      simp only [kept, List.map_cons, run, answer, others, bind, Except.bind]

theorem refusalsUnseen {g : Graph} {calls : List Call} (valid : t.validate = .ok ())
    (slots : g.SlotsResolve) (inside : ∀ call ∈ calls, call.ty.raw < t.types.size) :
    ∃ answers s r, run t o (.start g) calls = .ok (answers, s) ∧
      run t o (.start g) ((answered calls answers).map Prod.fst) =
        .ok ((answered calls answers).map Prod.snd, r) ∧
      r.graph = s.graph := by
  have sound := Table.validSound valid
  have first : Settled t o False (.start g) := startSettled slots
  obtain ⟨answers, s, ran, _⟩ := runEnds sound first inside
  obtain ⟨r, alone, ahead⟩ := runAnswered sound (aheadRefl _) first first ran
  exact ⟨answers, s, r, ran, alone, ahead.graph.symm⟩

/- The first refusal leaves an entry for the type that is asked for next. -/
def refusedCalls : List Call :=
  [.expand ⟨0⟩, .expandRoot ⟨6⟩, .expand ⟨1⟩, .expandRoot ⟨3⟩, .expand ⟨7⟩]

theorem sampleRefusalsUnseen :
    ∃ answers s r, run sampleTable sampleOptions (.start .empty) refusedCalls = .ok (answers, s) ∧
      run sampleTable sampleOptions (.start .empty)
          ((answered refusedCalls answers).map Prod.fst) =
        .ok ((answered refusedCalls answers).map Prod.snd, r) ∧
      r.graph = s.graph :=
  refusalsUnseen sampleValid Graph.emptySlotsResolve (by decide)

end ObjectLayout.Session
