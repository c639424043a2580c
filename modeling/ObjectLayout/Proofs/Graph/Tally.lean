import ObjectLayout.Proofs.Graph.Walking

/-! A visitor that counts as it goes: one counter for each kind of nodes, and from every node on to the
parts that the visitor comes by, sort by sort. The parts that have a type are the children of the node,
and the counters are the census. -/
namespace ObjectLayout

def Node.visited : Node → List NodeId
  | .record r =>
      r.params.flatMap (fun p => p.type?.toList) ++ r.parents.flatMap (fun p => [p.ty]) ++
        r.members.flatMap (fun m => [m.ty])
  | .container c => c.params.flatMap (fun p => p.type?.toList)
  | .array id _ => [id]
  | .typedef _ id => [id]
  | .pointer id => [id]
  | .reference id => [id]
  | .allocator id _ _ => [id]
  | .primitive _ | .enum _ | .incomplete _ | .dummy _ _ => []

theorem visitedChildren (n : Node) : n.visited = n.children := by
  cases n with
  | record r =>
    simp only [Node.visited, Node.children, List.filterMap_eq_flatMap_toList, List.map_eq_flatMap]
  | container c => exact (List.filterMap_eq_flatMap_toList ..).symm
  | _ => rfl

namespace Graph

def countOne (counts : NodeKind → Nat) (kind : NodeKind) : NodeKind → Nat :=
  fun other => counts other + if kind = other then 1 else 0

/- What has been seen is shared by all that is visited, and so are the counters. -/
def tally (g : Graph) (met : List NodeId) (counts : NodeKind → Nat) :
    List NodeId → Except Fault (NodeKind → Nat)
  | [] => .ok counts
  | id :: rest =>
      match fresh : met.idxOf? id with
      | some _ => tally g met counts rest
      | none =>
          match found : g.node? id with
          | none => .error (.missingNode id)
          | some n =>
              have : g.unmet (met ++ [id]) < g.unmet met := unmetLess found fresh
              tally g (met ++ [id]) (countOne counts n.kind) (n.visited ++ rest)
termination_by ids => (g.unmet met, ids.length)

theorem tallyWalk (g : Graph) (met : List NodeId) (counts : NodeKind → Nat) (ids : List NodeId) :
    g.tally met counts ids = (g.walk visitStyle met (ids.map (.node 0))).map
      (fun seen kind => counts kind + (seen.map (fun v => v.2.kind)).count kind) := by
  fun_induction tally g met counts ids with
  | case1 =>
    rw [List.map_nil, walk]
    rfl
  | case2 met counts id rest number old ih =>
    rw [ih, List.map_cons, walkOld old]
    cases g.walk visitStyle met (rest.map (.node 0)) <;> rfl
  | case3 met counts id rest fresh missing =>
    rw [List.map_cons, walkMissing fresh missing]
    rfl
  | case4 met counts id rest fresh n found less ih =>
    rw [ih, List.map_cons, walkNew fresh found rfl, List.cons_append, walk, visitedChildren,
      List.map_append]
    cases g.walk visitStyle (met ++ [id]) (n.children.map (.node 0) ++ rest.map (.node 0)) with
    | error f => rfl
    | ok seen =>
      refine congrArg Except.ok (funext fun kind => ?_)
      simp only [countOne, List.map_cons, List.count_cons, beq_iff_eq]
      omega

theorem tallyCensus (g : Graph) : g.tally [] (fun _ => 0) g.roots = g.census.map Census.count := by
  rw [tallyWalk, census, visits, list]
  cases g.walk visitStyle [] (g.roots.map (.node 0)) with
  | error f => rfl
  | ok seen => exact congrArg Except.ok (funext fun kind => Nat.zero_add _)

end Graph
end ObjectLayout
