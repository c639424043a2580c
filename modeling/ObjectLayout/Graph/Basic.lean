import ObjectLayout.Graph.Node

/-! The type graph: its nodes in the order of allocation, its roots, and for each primitive the
node that is shared by all who ask for it. A mark remembers how far the graph had grown; rolling
back to it drops what came later. -/
namespace ObjectLayout

structure Graph where
  nodes : Array Node
  roots : List NodeId
  slots : Vector (Option NodeId) Primitive.count
  deriving DecidableEq

structure Mark where
  nodes : Nat
  roots : Nat
  deriving DecidableEq, Repr

def Mark.isNewer (m : Mark) (id : NodeId) : Bool := m.nodes ≤ id.raw

namespace Graph

def empty : Graph := ⟨#[], [], Vector.replicate _ none⟩

def node? (g : Graph) (id : NodeId) : Option Node := g.nodes[id.raw]?

def node (g : Graph) (id : NodeId) : Except Fault Node :=
  match g.node? id with
  | some n => .ok n
  | none => .error (.missingNode id)

def slot (g : Graph) (kind : Primitive) : Option NodeId := g.slots[kind.index]

def push (g : Graph) (n : Node) : NodeId × Graph :=
  (⟨g.nodes.size⟩, { g with nodes := g.nodes.push n })

def addPrimitive (g : Graph) (kind : Primitive) : NodeId × Graph :=
  match g.slot kind with
  | some id => (id, g)
  | none =>
      let (id, g) := g.push (.primitive kind)
      (id, { g with slots := g.slots.set kind.index (some id) })

def addRoot (g : Graph) (id : NodeId) : Graph := { g with roots := g.roots ++ [id] }

def modifyRecord (g : Graph) (id : NodeId) (f : Record → Record) : Option Graph :=
  match g.node? id with
  | some (.record r) => some { g with nodes := g.nodes.setIfInBounds id.raw (.record (f r)) }
  | _ => none

def mark (g : Graph) : Mark := ⟨g.nodes.size, g.roots.length⟩

def rollback (g : Graph) (m : Mark) : Graph where
  nodes := g.nodes.take m.nodes
  roots := g.roots.take m.roots
  slots := g.slots.map (fun slot => slot.filter (fun id => !m.isNewer id))

def handles (g : Graph) : List NodeId :=
  g.roots ++ g.slots.toList.filterMap (fun slot => slot) ++ g.nodes.toList.flatMap Node.children

def isDangling (g : Graph) (id : NodeId) : Bool := g.nodes.size ≤ id.raw

def firstDangling (g : Graph) : Option NodeId := g.handles.find? g.isDangling

end Graph
end ObjectLayout
