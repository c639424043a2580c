import ObjectLayout.Proofs.Graph.Growth

/-! A graph whose enums name none of their values. Every node stays where it is and what it is, so
growing such a graph and cutting it back go on as in the graph with the names. -/
namespace ObjectLayout

def Node.unlisted : Node → Node
  | .enum e => .enum { e with enumerators := .empty }
  | n => n

def Graph.unlisted (g : Graph) : Graph := { g with nodes := g.nodes.map Node.unlisted }

namespace Node

theorem unlistedOther {n : Node} (other : n.kind ≠ .enum) : n.unlisted = n := by
  cases n with
  | enum e => contradiction
  | _ => rfl

theorem unlistedTwice (n : Node) : n.unlisted.unlisted = n.unlisted := by
  cases n <;> rfl

end Node

namespace Graph

theorem unlistedTwice (g : Graph) : g.unlisted.unlisted = g.unlisted := by
  have twice : Node.unlisted ∘ Node.unlisted = Node.unlisted := funext Node.unlistedTwice
  simp only [unlisted, Array.map_map, twice]

theorem unlistedSize (g : Graph) : g.unlisted.nodes.size = g.nodes.size := Array.size_map ..

theorem unlistedFind (g : Graph) (id : NodeId) :
    g.unlisted.node? id = (g.node? id).map Node.unlisted := Array.getElem?_map ..

theorem unlistedNode (g : Graph) (id : NodeId) :
    g.unlisted.node id = (g.node id).map Node.unlisted := by
  unfold node
  rw [unlistedFind]
  cases g.node? id <;> rfl

theorem unlistedMark (g : Graph) : g.unlisted.mark = g.mark := by
  simp only [mark, unlistedSize]
  rfl

theorem unlistedPush (g : Graph) (n : Node) :
    g.unlisted.push n.unlisted = ((g.push n).1, (g.push n).2.unlisted) := by
  simp only [push, unlistedSize]
  simp only [unlisted, Array.map_push]

theorem unlistedAddPrimitive (g : Graph) (kind : Primitive) :
    g.unlisted.addPrimitive kind = ((g.addPrimitive kind).1, (g.addPrimitive kind).2.unlisted) := by
  cases found : g.slot kind with
  | some id => rw [addPrimitiveOld found, addPrimitiveOld (g := g.unlisted) found]
  | none =>
    rw [addPrimitiveNew found, addPrimitiveNew (g := g.unlisted) found]
    have pushed := unlistedPush g (.primitive kind)
    simp only [Node.unlisted] at pushed
    rw [pushed, unlistedSize]
    rfl

theorem unlistedModify (g : Graph) (id : NodeId) (f : Record → Record) :
    g.unlisted.modifyRecord id f = (g.modifyRecord id f).map unlisted := by
  unfold modifyRecord
  rw [unlistedFind]
  cases g.node? id with
  | none => rfl
  | some n =>
    cases n with
    | record r => simp [Node.unlisted, unlisted, Array.map_setIfInBounds]
    | _ => rfl

theorem unlistedRollback (g : Graph) (m : Mark) :
    g.unlisted.rollback m = (g.rollback m).unlisted := by
  simp only [rollback, unlisted, Array.take_eq_extract, Array.map_extract]

end Graph
end ObjectLayout
