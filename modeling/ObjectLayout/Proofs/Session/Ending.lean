import ObjectLayout.Proofs.Session.History
import ObjectLayout.Proofs.Expansion.Fuel

/-! How the calls of a session end. Over a table that is in order every call ends, with a node of
the graph or with a refusal, and no handle that is met on the way is out of range. A refusal leaves
no trace in the graph. -/
namespace ObjectLayout.Session

open Expansion

variable {t : Table} {o : Options} {precise : Prop}

theorem refusedGraph {s last : Session} (ready : Ready t o precise s) (path : Advance t o s last) :
    (last.rollback s.graph.mark).graph = s.graph :=
  Graph.rollbackRestores (advanceGrown path).graph ready.resolved.slots

theorem outcomeNode {s last : Session} {ty : TypeId} {a} (h : Outcome t o precise s ty a last)
    {id : NodeId} (node : a = .ok id) : id.raw < last.graph.nodes.size := by
  cases h with
  | node path described child =>
    cases node
    exact child.inside
  | refused path => contradiction

theorem callEnds (sound : t.Sound) {s : Session} (ready : Ready t o precise s) {call : Call}
    (inside : call.ty.raw < t.types.size) :
    ∃ a s', s.answer t o call = .ok (a, s') ∧ ∀ id, a = .ok id → id.raw < s'.graph.nodes.size := by
  obtain ⟨a, last, ran, outcome⟩ := expandOutcome sound ready inside
  refine ⟨a, last.finish call a, by rw [answerRuns, ran]; rfl, ?_⟩
  intro id node
  have bound := outcomeNode outcome node
  rcases finishCases last call a with same | ⟨_, _, same⟩ <;> rw [same] <;> exact bound

theorem runEnds (sound : t.Sound) {s : Session} (h : Settled t o precise s) {calls : List Call}
    (inside : ∀ call ∈ calls, call.ty.raw < t.types.size) :
    ∃ answers last, run t o s calls = .ok (answers, last) ∧ answers.length = calls.length := by
  induction calls generalizing s with
  | nil => exact ⟨[], s, rfl, rfl⟩
  | cons call rest ih =>
    obtain ⟨a, s', first, _⟩ := callEnds sound h.ready (inside call List.mem_cons_self)
    obtain ⟨answers, last, second, length⟩ := ih (answerSettled sound h first)
      (fun other member => inside other (List.mem_cons_of_mem call member))
    refine ⟨a :: answers, last, ?_, ?_⟩
    · simp only [run, first, second, bind, Except.bind]
    · simp only [List.length_cons, length]

theorem refusalRestoresGraph {g : Graph} {calls : List Call} {answers} {s s' : Session}
    {call : Call} {cause : Unsupported} (valid : t.validate = .ok ()) (slots : g.SlotsResolve)
    (ran : run t o (.start g) calls = .ok (answers, s))
    (refused : s.answer t o call = .ok (.error cause, s')) : s'.graph = s.graph := by
  have sound := Table.validSound valid
  have settled := runSettled sound (startSettled slots) ran
  obtain ⟨last, outcome, same | ⟨id, node, _⟩⟩ := answerOutcome sound settled.ready refused
  · cases outcome with
    | refused path =>
      rw [same]
      exact refusedGraph settled.ready path
  · contradiction

theorem refusalRestoresSample :
    ∃ s s', run sampleTable sampleOptions (.start sampleSession.graph) [.expand ⟨6⟩] =
        .ok ([.error (.builtin .int128)], s) ∧
      s.answer sampleTable sampleOptions (.expandRoot ⟨7⟩) =
        .ok (.error (.builtin .int128), s') ∧
      s'.graph = s.graph := by
  have slots := (runSettled (Table.validSound sampleValid) emptySettled sampleRun).ready.resolved.slots
  let s : Session := ⟨sampleSession.graph, ⟨[(⟨1⟩, ⟨1⟩), (⟨0⟩, ⟨1⟩)]⟩, 0⟩
  have ran : run sampleTable sampleOptions (.start sampleSession.graph) [.expand ⟨6⟩] =
      .ok ([.error (.builtin .int128)], s) := by
    decide +kernel
  have refused : s.answer sampleTable sampleOptions (.expandRoot ⟨7⟩) =
      .ok (.error (.builtin .int128), s) := by
    decide +kernel
  exact ⟨s, s, ran, refused, refusalRestoresGraph sampleValid slots ran refused⟩

theorem everyCallEnds {g : Graph} {calls : List Call} (valid : t.validate = .ok ())
    (slots : g.SlotsResolve) (inside : ∀ call ∈ calls, call.ty.raw < t.types.size) :
    ∃ answers s, run t o (.start g) calls = .ok (answers, s) ∧ answers.length = calls.length ∧
      ∀ call : Call, call.ty.raw < t.types.size →
        (∃ a s', s.answer t o call = .ok (a, s') ∧
          ∀ id, a = .ok id → id.raw < s'.graph.nodes.size) ∧
        ∀ more, fuel t ≤ more →
          Expansion.expand t o more call.ty { s with depth := 0 } =
            Expansion.expand t o (fuel t) call.ty { s with depth := 0 } := by
  have sound := Table.validSound valid
  have first : Settled t o False (.start g) := startSettled slots
  obtain ⟨answers, s, ran, length⟩ := runEnds sound first inside
  have settled := runSettled sound first ran
  refine ⟨answers, s, ran, length, fun call known => ⟨callEnds sound settled.ready known, ?_⟩⟩
  intro more enough
  have resolved := settled.ready.resolved
  have level : Session.Resolved t { s with depth := 0 } :=
    ⟨resolved.slots, resolved.memo, resolved.keys⟩
  exact fuelStable sound level known enough

theorem everySampleCallEnds :
    ∃ answers s, run sampleTable sampleOptions (.start .empty) sampleCalls = .ok (answers, s) ∧
      answers.length = 6 ∧
      ∀ call : Call, call.ty.raw < 12 →
        (∃ a s', s.answer sampleTable sampleOptions call = .ok (a, s') ∧
          ∀ id, a = .ok id → id.raw < s'.graph.nodes.size) ∧
        ∀ more, fuel sampleTable ≤ more →
          Expansion.expand sampleTable sampleOptions more call.ty { s with depth := 0 } =
            Expansion.expand sampleTable sampleOptions (fuel sampleTable) call.ty
              { s with depth := 0 } := by
  have inside : ∀ call ∈ sampleCalls, call.ty.raw < sampleTable.types.size := by decide
  exact everyCallEnds sampleValid Graph.emptySlotsResolve inside

end ObjectLayout.Session
