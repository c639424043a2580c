import ObjectLayout.Graph.Basic

/-! Walking a graph from some of its nodes, in depth-first order and each node once. What is listed
on the way is left to a `Style`: the walk keeps the nodes it has met, numbers them in the order of
the first meeting, and asks the style what to list for a node that is new and for one that is
not. -/
namespace ObjectLayout

inductive Item (α : Type) where
  | line (a : α)
  | node (level : Nat) (id : NodeId)
  deriving DecidableEq

/- What stands for a node: lines that end there and are given again at every meeting, or lines and
nodes that are given at the first one. -/
inductive Listing (α : Type) where
  | leaf (lines : List α)
  | branch (items : List (Item α))
  deriving DecidableEq

structure Style (α : Type) where
  first : (level number : Nat) → NodeId → Node → Listing α
  again : (level number : Nat) → NodeId → List α

namespace Graph

def unmet (g : Graph) (met : List NodeId) : Nat :=
  (List.range g.nodes.size).countP (fun i => !met.contains ⟨i⟩)

theorem unmetLess {g : Graph} {met : List NodeId} {id : NodeId} {n : Node}
    (found : g.node? id = some n) (fresh : met.idxOf? id = none) :
    g.unmet (met ++ [id]) < g.unmet met := by
  have inside : id.raw < g.nodes.size := by
    apply Nat.lt_of_not_le
    intro h
    simp [node?, Array.getElem?_eq_none h] at found
  have absent : id ∉ met := by
    simpa [List.idxOf?_eq_none_iff] using fresh
  have member : id.raw ∈ List.range g.nodes.size := List.mem_range.mpr inside
  unfold unmet
  generalize List.range g.nodes.size = ids at member
  induction ids with
  | nil => simp at member
  | cons i ids ih =>
      have mono : ids.countP (fun i => !(met ++ [id]).contains ⟨i⟩) ≤
          ids.countP (fun i => !met.contains ⟨i⟩) := by
        apply List.countP_mono_left
        intro x _ hx
        simp at hx ⊢
        exact hx.1
      by_cases same : i = id.raw
      · subst same
        have here : (⟨id.raw⟩ : NodeId) = id := rfl
        rw [List.countP_cons, List.countP_cons, here]
        simpa [absent] using Nat.lt_succ_of_le mono
      · have inRest : id.raw ∈ ids := by
          rcases List.mem_cons.mp member with h | h
          · exact absurd h.symm same
          · exact h
        have step := ih inRest
        rw [List.countP_cons, List.countP_cons]
        have keep : (!(met ++ [id]).contains (⟨i⟩ : NodeId)) = !met.contains ⟨i⟩ := by
          have : (⟨i⟩ : NodeId) ≠ id := fun h => same (congrArg NodeId.raw h)
          simp [this]
        rw [keep]
        omega

def walk {α : Type} (g : Graph) (style : Style α) (met : List NodeId) :
    List (Item α) → Except Fault (List α)
  | [] => .ok []
  | .line a :: rest => do
      let lines ← g.walk style met rest
      .ok (a :: lines)
  | .node level id :: rest =>
      match fresh : met.idxOf? id with
      | some number => do
          let lines ← g.walk style met rest
          .ok (style.again level number id ++ lines)
      | none =>
          match found : g.node? id with
          | none => .error (.missingNode id)
          | some n =>
              match style.first level met.length id n with
              | .leaf here => do
                  let lines ← g.walk style met rest
                  .ok (here ++ lines)
              | .branch items =>
                  have : g.unmet (met ++ [id]) < g.unmet met := unmetLess found fresh
                  g.walk style (met ++ [id]) (items ++ rest)
termination_by items => (g.unmet met, items.length)

def list {α : Type} (g : Graph) (style : Style α) (ids : List NodeId) : Except Fault (List α) :=
  g.walk style [] (ids.map (.node 0))

def visitStyle : Style (NodeId × Node) where
  first _ _ id n := .branch (.line (id, n) :: n.children.map (.node 0))
  again _ _ _ := []

def visits (g : Graph) : Except Fault (List (NodeId × Node)) := g.list visitStyle g.roots

structure Census where
  kinds : List NodeKind
  deriving DecidableEq

def Census.count (c : Census) (kind : NodeKind) : Nat := c.kinds.count kind

def Census.total (c : Census) : Nat := c.kinds.length

def census (g : Graph) : Except Fault Census := do
  let seen ← g.visits
  .ok ⟨seen.map (fun (_, n) => n.kind)⟩

end Graph
end ObjectLayout
