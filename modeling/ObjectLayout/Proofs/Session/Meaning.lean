import ObjectLayout.Proofs.Session.History

/-! What the memo of a session over a graph of its own says, after any history of calls. The node of
a type is the one that the table describes, and types and nodes correspond: only builtin types that
are measured alike share a node, and no node is there for nothing. -/
namespace ObjectLayout.Session

open Expansion

variable {t : Table} {o : Options}

theorem memoDescribes {calls : List Call} {answers} {s : Session} {ty : TypeId} {id : NodeId}
    (valid : t.validate = .ok ()) (ran : run t o (.start .empty) calls = .ok (answers, s))
    (looked : s.lookup ty = some id) :
    ∃ n, s.graph.node? id = some n ∧ Describes t o (Linked t o.chasePointers s) ty n :=
  (runSettled (Table.validSound valid) emptySettled ran).described trivial ty id looked

theorem sampleDescribes :
    ∃ n, sampleSession.graph.node? ⟨0⟩ = some n ∧
      Describes sampleTable sampleOptions (Linked sampleTable false sampleSession) ⟨3⟩ n :=
  memoDescribes sampleValid sampleRun (by decide)

theorem sharedMeasure {s : Session} (coherent : Coherent t o s) {a b : TypeId} {id : NodeId}
    (first : s.lookup a = some id) (second : s.lookup b = some id) (distinct : a ≠ b) :
    ∃ kind, t.MeasuredAs o a kind ∧ t.MeasuredAs o b kind := by
  obtain ⟨n, node, _⟩ := (coherent.entered a id first).node
  cases own : n.isPrimitive with
  | false => exact absurd (coherent.own a b id n first second node own) distinct
  | true =>
    obtain ⟨kind, same⟩ := Node.primitiveKind own
    rw [same] at node
    exact ⟨kind, (coherent.entered a id first).builtin kind node,
      (coherent.entered b id second).builtin kind node⟩

theorem ownerUnique {s : Session} (coherent : Coherent t o s) {id : NodeId} {n : Node}
    (node : s.graph.node? id = some n) (own : n.isPrimitive = false) :
    ∃! ty, s.lookup ty = some id := by
  rcases coherent.covered id n node with stub | ⟨ty, looked⟩
  · rw [stub] at own
    contradiction
  · refine ⟨ty, looked, ?_⟩
    intro other also
    exact coherent.own other ty id n also looked node own

theorem primitiveUnique {g : Graph} (slots : g.Accurate) {kind : Primitive} {a b : NodeId}
    (first : g.node? a = some (.primitive kind)) (second : g.node? b = some (.primitive kind)) :
    a = b := by
  have filled := (slots kind a).mpr first
  rw [(slots kind b).mpr second] at filled
  exact (Option.some.inj filled).symm

def position (found : Option NodeId) : Nat := (found.map NodeId.raw).getD 0

def positions (t : Table) (s : Session) : Finset Nat :=
  (Finset.range t.types.size).image (fun i => position (s.lookup ⟨i⟩))

theorem positionCovered {s : Session} (resolved : Resolved t s) (coherent : Coherent t o s) {i : Nat}
    (inside : i < s.graph.nodes.size) :
    i ∈ insert (position (s.graph.slot .stubbedPointer)) (positions t s) := by
  have found : (⟨i⟩ : NodeId).raw < s.graph.nodes.size := inside
  obtain ⟨n, node⟩ := Graph.nodeOfInside found
  rcases coherent.covered ⟨i⟩ n node with same | ⟨ty, looked⟩
  · rw [same] at node
    have filled := (coherent.slots .stubbedPointer ⟨i⟩).mpr node
    simp [filled, position]
  · have known := (resolved.memo ty ⟨i⟩ looked).1
    have here : position (s.lookup ty) = i := by simp [position, looked]
    exact Finset.mem_insert_of_mem
      (Finset.mem_image.mpr ⟨ty.raw, Finset.mem_range.mpr known, here⟩)

theorem sizeBound {s : Session} (resolved : Resolved t s) (coherent : Coherent t o s) :
    s.graph.nodes.size ≤ t.types.size + 1 := by
  have all : Finset.range s.graph.nodes.size ⊆
      insert (position (s.graph.slot .stubbedPointer)) (positions t s) :=
    fun i member => positionCovered resolved coherent (Finset.mem_range.mp member)
  calc s.graph.nodes.size = (Finset.range s.graph.nodes.size).card := (Finset.card_range _).symm
    _ ≤ (insert (position (s.graph.slot .stubbedPointer)) (positions t s)).card :=
      Finset.card_le_card all
    _ ≤ (positions t s).card + 1 := Finset.card_insert_le _ _
    _ ≤ (Finset.range t.types.size).card + 1 := Nat.add_le_add_right Finset.card_image_le 1
    _ = t.types.size + 1 := by rw [Finset.card_range]

theorem oneNodeEach {calls : List Call} {answers} {s : Session} (valid : t.validate = .ok ())
    (ran : run t o (.start .empty) calls = .ok (answers, s)) :
    (∀ a b id, a ≠ b → s.lookup a = some id → s.lookup b = some id →
      ∃ kind, t.MeasuredAs o a kind ∧ t.MeasuredAs o b kind) ∧
    (∀ id n, s.graph.node? id = some n → n.isPrimitive = false → ∃! ty, s.lookup ty = some id) ∧
    (∀ kind a b, s.graph.node? a = some (.primitive kind) →
      s.graph.node? b = some (.primitive kind) → a = b) ∧
    s.graph.nodes.size ≤ t.types.size + 1 := by
  have settled := runSettled (Table.validSound valid) emptySettled ran
  have coherent := settled.ready.coherent trivial
  refine ⟨?_, ?_, ?_, sizeBound settled.ready.resolved coherent⟩
  · intro a b id distinct first second
    exact sharedMeasure coherent first second distinct
  · intro id n node own
    exact ownerUnique coherent node own
  · intro kind a b first second
    exact primitiveUnique coherent.slots first second

theorem oneNodeEachSample :
    (∀ a b id, a ≠ b → sampleSession.lookup a = some id → sampleSession.lookup b = some id →
      ∃ kind, sampleTable.MeasuredAs sampleOptions a kind ∧
        sampleTable.MeasuredAs sampleOptions b kind) ∧
    (∀ id n, sampleSession.graph.node? id = some n → n.isPrimitive = false →
      ∃! ty, sampleSession.lookup ty = some id) ∧
    (∀ kind a b, sampleSession.graph.node? a = some (.primitive kind) →
      sampleSession.graph.node? b = some (.primitive kind) → a = b) ∧
    sampleSession.graph.nodes.size ≤ sampleTable.types.size + 1 :=
  oneNodeEach sampleValid sampleRun

end ObjectLayout.Session
