import ObjectLayout.Proofs.Expansion.Entered
import ObjectLayout.Proofs.Session.Again

/-! What a node that a call was answered with is worth later. A call adds to the session and changes
nothing that is there; and the type that was asked for is answered with its node from then on, no
matter what else has been asked for or refused in between. -/
namespace ObjectLayout

def Call.newRoots : Call → NodeId → List NodeId
  | .expand _, _ => []
  | .expandRoot _, id => [id]

namespace Session
open Expansion

variable {t : Table} {o : Options} {precise : Prop}

structure Extends (last s : Session) (roots : List NodeId) : Prop where
  nodes : s.graph.nodes.toList <+: last.graph.nodes.toList
  roots : last.graph.roots = s.graph.roots ++ roots
  slots : ∀ kind id, s.graph.slot kind = some id → last.graph.slot kind = some id
  memo : ∀ ty id, s.lookup ty = some id → last.lookup ty = some id

theorem grownExtends {s last : Session} (grown : Grown s last) : last.Extends s [] := by
  refine ⟨?_, by simp [grown.graph.roots], grown.graph.slot, grown.memo⟩
  rw [List.prefix_iff_getElem?]
  intro i inside
  have here : s.graph.node? ⟨i⟩ = some s.graph.nodes.toList[i] := by simp [Graph.node?]
  simpa [Graph.node?] using (grown.graph.node ⟨i⟩ (Graph.nodeInside here)).trans here

theorem extendsRoot {s last : Session} {roots : List NodeId} (h : last.Extends s roots)
    (id : NodeId) : (last.addRoot id).Extends s (roots ++ [id]) := by
  refine ⟨h.nodes, ?_, h.slots, h.memo⟩
  simp only [addRoot, Graph.addRoot, h.roots, List.append_assoc]

theorem expandEntered (sound : t.Sound) {s s' : Session} (ready : Ready t o precise s)
    (explored : AllExplored t o s) {ty : TypeId} {id : NodeId}
    (ended : s.expand t o ty = .ok (.ok id, s')) :
    s'.Extends s [] ∧ ∃ target, t.Desugars ty target ∧ s'.lookup target = some id := by
  have inside := expandInside ready.resolved ended
  have down : Advance t o s { s with depth := 0 } := .single (.level 0)
  have plain := fun other place looked => (explored other ⟨place, looked⟩).plain
  have both := meetsBoth
    (expandAnswers sound (fuel t) _ ty (readyAfter ready down) inside (costFuel _ inside))
    (expandEnters sound (readyAfter ready down) rfl plain inside (costFuel _ inside))
  unfold expand at ended
  unfold Meets at both
  cases run : Expansion.expand t o (fuel t) ty { s with depth := 0 } with
  | ok place last =>
    simp only [run] at ended both
    cases ended
    obtain ⟨answered, entered⟩ := both
    exact ⟨grownExtends (advanceGrown (advanceTrans down answered.progress.path)), entered⟩
  | error e last =>
    simp only [run] at ended
    cases e <;> cases ended

theorem runMemo (sound : t.Sound) {s last : Session} (settled : Settled t o precise s)
    {calls : List Call} {answers} (ran : run t o s calls = .ok (answers, last)) {ty : TypeId}
    {id : NodeId} (looked : s.lookup ty = some id) : last.lookup ty = some id := by
  have kept := runKeeps (P := fun s => Settled t o precise s ∧ s.lookup ty = some id)
    (fun _ _ _ _ both ended =>
      ⟨answerSettled sound both.1 ended, answerMemo sound both.1.ready ended both.2⟩) ran
  exact (kept ⟨settled, looked⟩).2

theorem finishExtends {s last : Session} (h : last.Extends s []) (call : Call) (id : NodeId) :
    (last.finish call (.ok id)).Extends s (call.newRoots id) := by
  cases call with
  | expand ty => exact h
  | expandRoot ty => exact extendsRoot h id

theorem answerStable {g : Graph} {calls : List Call} {answers} {s s' : Session} {call : Call}
    {id : NodeId} (valid : t.validate = .ok ()) (slots : g.SlotsResolve)
    (ran : run t o (.start g) calls = .ok (answers, s))
    (ended : s.answer t o call = .ok (.ok id, s')) :
    s'.Extends s (call.newRoots id) ∧
    ∀ later between last, run t o s' later = .ok (between, last) →
      last.expand t o call.ty = .ok (.ok id, { last with depth := 0 }) ∧
      last.expandRoot t o call.ty = .ok (.ok id, addRoot { last with depth := 0 } id) := by
  have sound := Table.validSound valid
  have start : Settled t o False (.start g) := startSettled slots
  obtain ⟨settled, explored⟩ := runExplored sound start (startExplored g) ran
  obtain ⟨first, expanded, ends⟩ := answerExpands ended
  obtain ⟨added, target, path, entered⟩ := expandEntered sound settled.ready explored expanded
  have looked : s'.lookup target = some id := by
    rcases finishCases first call (.ok id) with same | ⟨_, _, same⟩ <;> rw [ends, same] <;>
      exact entered
  refine ⟨ends ▸ finishExtends added call id, ?_⟩
  intro later between last next
  have after := answerSettled sound settled ended
  have kept := runMemo sound after next looked
  obtain ⟨settled', explored'⟩ :=
    runExplored sound after (answerExplored sound settled explored ended) next
  have inside := expandInside settled.ready.resolved expanded
  have again := expandAgain sound settled'.ready explored' inside path kept
  exact ⟨again, by simp only [expandRoot, again, bind, Except.bind]⟩

/- The address of a `Ring`, spelled with its keyword, is asked for when a `Ring` that shows it as a
stub is there; then it is asked for again, after two refusals. -/
def sampleExtended : Session where
  graph := { sampleSession.graph with
    nodes := sampleSession.graph.nodes.push (.pointer ⟨0⟩)
    roots := [⟨0⟩, ⟨6⟩, ⟨7⟩] }
  memo := sampleSession.memo.insert ⟨4⟩ ⟨7⟩
  depth := 0

theorem sampleAnswerStable :
    sampleExtended.Extends sampleSession [⟨7⟩] ∧
    sampleExtended.expand sampleTable sampleOptions ⟨5⟩ = .ok (.ok ⟨7⟩, sampleExtended) :=
  have ended : sampleSession.answer sampleTable sampleOptions (.expandRoot ⟨5⟩) =
      .ok (.ok ⟨7⟩, sampleExtended) := by decide +kernel
  have stable := answerStable sampleValid Graph.emptySlotsResolve sampleRun ended
  ⟨stable.1, (stable.2 [.expand ⟨6⟩, .expandRoot ⟨2⟩]
    [.error (.builtin .int128), .error (.builtin .int128)] sampleExtended (by decide +kernel)).1⟩

end Session
end ObjectLayout
