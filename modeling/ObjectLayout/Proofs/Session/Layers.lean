import ObjectLayout.Proofs.Graph.Layers
import ObjectLayout.Proofs.Session.Ending

/-! The graph of a session after any history of calls. A wrapper gets its node when what it wraps has
one, and nothing is written to but records; so the graph is layered after every call. -/
namespace ObjectLayout.Session

open Expansion

variable {t : Table} {o : Options} {precise : Prop}

theorem changeLayered {since : Nat} {s s' : Session} (step : Change t o since s s')
    (h : s.graph.Layered) : s'.graph.Layered := by
  cases step with
  | level depth => exact h
  | enter fresh found plain complete own closed => exact Graph.pushLayered h closed
  | shareFor fresh found same measured => exact Graph.addPrimitiveLayered h _
  | stub => exact Graph.addPrimitiveLayered h _
  | fill newer found closed => exact Graph.setRecordLayered h found closed

theorem changesLayered {since : Nat} {s s' : Session} (path : Changes t o since s s')
    (h : s.graph.Layered) : s'.graph.Layered := by
  induction path with
  | refl => exact h
  | tail _ step ih => exact changeLayered step ih

theorem answerLayered (sound : t.Sound) {s s' : Session} (ready : Ready t o precise s)
    (h : s.graph.Layered) {call : Call} {a} (ended : s.answer t o call = .ok (a, s')) :
    s'.graph.Layered := by
  obtain ⟨last, outcome, same | ⟨id, node, same⟩⟩ := answerOutcome sound ready ended
  all_goals
    have layered : last.graph.Layered := by
      cases outcome with
      | node path described child => exact changesLayered path h
      | refused path =>
        -- whatever the call has built on the way is dropped again
        rw [refusedGraph ready path]
        exact h
    rw [same]
  · exact layered
  · exact Graph.addRootLayered layered (outcomeNode outcome node)

theorem runLayered (sound : t.Sound) {s last : Session} (settled : Settled t o precise s)
    (h : s.graph.Layered) {calls : List Call} {answers}
    (ran : run t o s calls = .ok (answers, last)) : last.graph.Layered :=
  (runKeeps (P := fun s => Settled t o precise s ∧ s.graph.Layered)
    (fun _ _ _ _ both ended => ⟨answerSettled sound both.1 ended,
      answerLayered sound both.1.ready both.2 ended⟩) ran ⟨settled, h⟩).2

theorem graphLayered {calls : List Call} (valid : t.validate = .ok ())
    (inside : ∀ call ∈ calls, call.ty.raw < t.types.size) :
    ∃ answers s, run t o (.start .empty) calls = .ok (answers, s) ∧
      s.graph.firstDangling = none ∧
      (∀ kind id, s.graph.slot kind = some id → s.graph.node? id = some (.primitive kind)) ∧
      (∀ id n c, s.graph.node? id = some n → n.isRecord = false → c ∈ n.children →
        c.raw < id.raw) ∧
      (∀ id, ¬ Relation.TransGen s.graph.Rests id id) ∧
      ∀ id, id.raw < s.graph.nodes.size → ∃ name, s.graph.displayName id = .ok name ∧
        ∀ fuel, s.graph.nodes.size < fuel → s.graph.nameWithin fuel id = .ok name := by
  have sound := Table.validSound valid
  have start : Settled t o True (.start .empty) := emptySettled
  obtain ⟨answers, s, ran, _⟩ := runEnds sound start inside
  have coherent := (runSettled sound start ran).ready.coherent trivial
  have layered := runLayered sound start Graph.emptyLayered ran
  refine ⟨answers, s, ran, Graph.closedWhole layered.closed, ?_, layered.older,
    Graph.loopsMeetRecords layered, ?_⟩
  · exact fun kind id filled => (coherent.slots kind id).mp filled
  · exact fun id known =>
      (Graph.nameOrEndless layered.closed known).1 (Graph.layeredName layered id)

theorem sampleGraphLayered :
    ∃ answers s, run sampleTable sampleOptions (.start .empty) sampleCalls = .ok (answers, s) ∧
      s.graph.firstDangling = none ∧
      (∀ kind id, s.graph.slot kind = some id → s.graph.node? id = some (.primitive kind)) ∧
      (∀ id n c, s.graph.node? id = some n → n.isRecord = false → c ∈ n.children →
        c.raw < id.raw) ∧
      (∀ id, ¬ Relation.TransGen s.graph.Rests id id) ∧
      ∀ id, id.raw < s.graph.nodes.size → ∃ name, s.graph.displayName id = .ok name ∧
        ∀ fuel, s.graph.nodes.size < fuel → s.graph.nameWithin fuel id = .ok name :=
  graphLayered sampleValid (by decide)

end ObjectLayout.Session
