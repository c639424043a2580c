import Mathlib.Data.List.Nodup
import ObjectLayout.Proofs.Graph.Indentation
import ObjectLayout.Proofs.Graph.Unfolding

/-! The numbers of an outline. They follow the depth-first order of the nodes, and wherever a node that has
a number is shown again, its line holds that number. -/
namespace ObjectLayout

namespace Graph

variable {g : Graph} {met ids order : List NodeId}

def onward (g : Graph) (id : NodeId) : List NodeId := (g.node? id).toList.flatMap Node.children

end Graph

namespace Outline

variable {g : Graph} {met order : List NodeId} {ps : List Part} {trees : List Tree}

def Row.header? (row : Row) : Option (NodeId × Nat) :=
  match row.content with
  | .header number id _ => some (id, number)
  | _ => none

def Backed (known : List (NodeId × Nat)) (rows : List Row) : Prop :=
  ∀ before level number id after, rows = before ++ ⟨level, .again number id⟩ :: after →
    (id, number) ∈ known ++ before.filterMap Row.header?

mutual

theorem treeDeeper (level : Nat) (tree : Tree) : ∀ row ∈ tree.rows level, level ≤ row.level := by
  cases tree with
  | line content below =>
    exact List.forall_mem_cons.mpr ⟨Nat.le_refl level,
      fun row member => Nat.le_of_succ_le (forestDeeper (level + 1) below row member)⟩

theorem forestDeeper (level : Nat) (trees : List Tree) :
    ∀ row ∈ forestRows level trees, level ≤ row.level := by
  cases trees with
  | nil => exact nofun
  | cons tree rest => exact List.forall_mem_append.mpr ⟨treeDeeper level tree, forestDeeper level rest⟩

end

end Outline
end ObjectLayout
