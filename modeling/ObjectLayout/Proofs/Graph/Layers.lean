import ObjectLayout.Proofs.Graph.Naming

/-! Graphs in which a node is made of older nodes, but for the records, whose parts may lead back to
them. So there is no way around that meets no record, and every name ends. -/
namespace ObjectLayout

def Node.isRecord : Node → Bool
  | .record _ => true
  | _ => false

theorem Node.namedPlain {n : Node} {id : NodeId} (part : n.NamePart id) : n.isRecord = false := by
  cases part <;> rfl

namespace Graph

variable {g : Graph}

structure Layered (g : Graph) : Prop where
  closed : g.Closed
  older : ∀ id n c, g.node? id = some n → n.isRecord = false → c ∈ n.children → c.raw < id.raw

def Rests (g : Graph) (id child : NodeId) : Prop :=
  ∃ n, g.node? id = some n ∧ n.isRecord = false ∧ child ∈ n.children

theorem restsOlder (layered : g.Layered) {id last : NodeId} (way : Relation.TransGen g.Rests id last) :
    last.raw < id.raw := by
  induction way with
  | single step =>
    obtain ⟨n, node, plain, child⟩ := step
    exact layered.older id n _ node plain child
  | tail _ step ih =>
    obtain ⟨n, node, plain, child⟩ := step
    exact Nat.lt_trans (layered.older _ n _ node plain child) ih

theorem loopsMeetRecords (layered : g.Layered) (id : NodeId) : ¬ Relation.TransGen g.Rests id id :=
  fun loop => Nat.lt_irrefl id.raw (restsOlder layered loop)

theorem layeredName (layered : g.Layered) (id : NodeId) : g.NameEnds id := by
  have falls : Subrelation g.NamedBy (InvImage (· < ·) NodeId.raw) := by
    rintro part whole ⟨n, node, named⟩
    have child := Node.mentionsChild.mp (Node.partMentioned named)
    exact layered.older whole n part node (Node.namedPlain named) child
  exact (falls.wf (InvImage.wf NodeId.raw Nat.lt_wfRel.wf)).apply id

theorem emptyLayered : empty.Layered := by
  have nothing : ∀ id n, empty.node? id ≠ some n := by
    intro id n found
    exact absurd (nodeInside found) (Nat.not_lt_zero _)
  refine ⟨⟨nofun, emptySlotsResolve, ?_⟩, ?_⟩
  · intro place n id found
    exact absurd found (nothing place n)
  · intro id n c found
    exact absurd found (nothing id n)

theorem pushLayered (h : g.Layered) {n : Node} (made : ∀ c ∈ n.children, c.raw < g.nodes.size) :
    (g.push n).2.Layered := by
  have size := sizePush g n
  refine ⟨⟨?_, ?_, ?_⟩, ?_⟩
  · intro id root
    have inside := h.closed.roots id root
    omega
  · intro kind id filled
    have inside := h.closed.slots kind id filled
    omega
  · intro place m id found mentions
    rw [nodePush] at found
    split at found
    · cases found
      have inside := made id (Node.mentionsChild.mp mentions)
      omega
    · have inside := h.closed.children place m id found mentions
      omega
  · intro id m c found plain child
    rw [nodePush] at found
    split at found
    · rename_i last
      cases found
      exact last ▸ made c child
    · exact h.older id m c found plain child

theorem addPrimitiveLayered (h : g.Layered) (kind : Primitive) : (g.addPrimitive kind).2.Layered := by
  cases filled : g.slot kind with
  | some id =>
    rw [addPrimitiveOld filled]
    exact h
  | none =>
    have pushed := pushLayered h (n := .primitive kind) nofun
    have made := addPrimitiveNew filled
    refine ⟨⟨?_, ?_, ?_⟩, ?_⟩
    · rw [made]
      exact pushed.closed.roots
    · intro other id found
      rw [slotAddPrimitive, made] at found
      rw [made]
      split at found
      · cases found
        exact Nat.lt_of_lt_of_eq (Nat.lt_succ_self _) (sizePush g _).symm
      · exact pushed.closed.slots other id found
    · rw [made]
      exact pushed.closed.children
    · rw [made]
      exact pushed.older

theorem setRecordLayered (h : g.Layered) {id : NodeId} {old r : Record}
    (node : g.node? id = some (.record old))
    (made : ∀ c ∈ (Node.record r).children, c.raw < g.nodes.size) : (g.setRecord id r).Layered := by
  have size := sizeSetRecord g id r
  have nodes := nodeSetRecord (nodeInside node) r
  refine ⟨⟨?_, ?_, ?_⟩, ?_⟩
  · exact fun root member => size ▸ h.closed.roots root member
  · exact fun kind slot filled => size ▸ h.closed.slots kind slot filled
  · intro place m child found mentions
    rw [nodes] at found
    split at found
    · cases found
      exact size ▸ made child (Node.mentionsChild.mp mentions)
    · exact size ▸ h.closed.children place m child found mentions
  · intro place m child found plain member
    rw [nodes] at found
    split at found
    · cases found
      contradiction
    · exact h.older place m child found plain member

theorem addRootLayered (h : g.Layered) {id : NodeId} (inside : id.raw < g.nodes.size) :
    (g.addRoot id).Layered := by
  refine ⟨⟨?_, h.closed.slots, h.closed.children⟩, h.older⟩
  intro root member
  rcases List.mem_append.mp member with old | new
  · exact h.closed.roots root old
  · exact List.mem_singleton.mp new ▸ inside

end Graph
end ObjectLayout
