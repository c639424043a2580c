import ObjectLayout.Proofs.Graph.Closed
import ObjectLayout.Storage.Archive

/-! The handles that an archive holds, in the order in which they are looked at when it is loaded. If
none of them is out of range its graph is closed. -/
namespace ObjectLayout.Archive

def handles (a : Archive) : List NodeId :=
  a.roots.map NamedNode.node ++ a.graph.roots ++ a.graph.slots.toList.filterMap id ++
    a.graph.nodes.toList.flatMap Node.children

theorem firstDanglingFinds (a : Archive) :
    a.firstDangling = a.handles.find? (fun id => a.graph.nodes.size ≤ id.raw) := by
  simp only [firstDangling, handles, Graph.handles, List.append_assoc]
  rfl

theorem inRange {a : Archive} (none : a.firstDangling = none) {id : NodeId} (held : id ∈ a.handles) :
    id.raw < a.graph.nodes.size := by
  rw [firstDanglingFinds, List.find?_eq_none] at none
  simpa using none id held

theorem namedHandle {a : Archive} {root : NamedNode} (member : root ∈ a.roots) :
    root.node ∈ a.handles :=
  List.mem_append_left _ (List.mem_append_left _ (List.mem_append_left _
    (List.mem_map_of_mem member)))

theorem closedGraph {a : Archive} (none : a.firstDangling = none) : a.graph.Closed := by
  apply Graph.wholeClosed
  rw [Graph.firstDangling, List.find?_eq_none]
  exact fun id held => List.find?_eq_none.mp none id (List.mem_append_right _ held)

end ObjectLayout.Archive
