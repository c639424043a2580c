import ObjectLayout.Proofs.Graph.Census
import ObjectLayout.Proofs.Graph.Naming
import ObjectLayout.Proofs.Storage.Canonical

/-! What can be done with an archive that was loaded. Every walk of its graph ends and meets nothing
but nodes of it. A name ends unless it is made of itself, which a loaded graph may ask for. -/
namespace ObjectLayout.Archive

open Relation

theorem loadedWalks {data : Bytes} {a : Archive} (loaded : load data = .ok a) :
    (∃ c, a.graph.census = .ok c ∧ c.total ≤ a.graph.nodes.size) ∧
      (∀ ids, (∀ id ∈ ids, id.raw < a.graph.nodes.size) →
        (∃ text, Outline.print a.graph ids = .ok text) ∧
          ∃ text, Diagram.print a.graph ids = .ok text) ∧
      ∀ id, id.raw < a.graph.nodes.size →
        (a.graph.NameEnds id → ∃ s, a.graph.displayName id = .ok s ∧
            ∀ fuel, a.graph.nodes.size < fuel → a.graph.nameWithin fuel id = .ok s) ∧
          (¬ a.graph.NameEnds id → ∀ fuel, a.graph.nameWithin fuel id = .error .endless) := by
  obtain ⟨_, _, _, _, none⟩ := loadRead loaded
  have closed := closedGraph none
  refine ⟨Graph.censusEnds closed, ?_, fun id inside => Graph.nameOrEndless closed inside⟩
  intro ids inside
  obtain ⟨rows, listed⟩ := Graph.listEnds closed Outline.stays inside
  obtain ⟨statements, drawn⟩ := Graph.listEnds closed Diagram.stays inside
  exact ⟨⟨_, bindAnswers.mpr ⟨rows, listed, rfl⟩⟩, ⟨_, bindAnswers.mpr ⟨statements, drawn, rfl⟩⟩⟩

theorem sampleWalks :
    (∃ c, sampleArchive.graph.census = .ok c ∧ c.total ≤ 11) ∧
      (∃ text, Outline.print sampleArchive.graph [⟨8⟩, ⟨3⟩] = .ok text) ∧
      (∃ text, Diagram.print sampleArchive.graph [⟨8⟩, ⟨3⟩] = .ok text) ∧
      (∃ s, sampleArchive.graph.displayName ⟨3⟩ = .ok s) ∧
      ∀ fuel, sampleArchive.graph.nameWithin fuel ⟨8⟩ = .error .endless := by
  have loaded := (loadStored sampleFits []).1 (by decide)
  obtain ⟨census, prints, names⟩ := loadedWalks loaded
  obtain ⟨outline, diagram⟩ := prints [⟨8⟩, ⟨3⟩] (by decide)
  have nested : sampleArchive.graph.nameWithin 4 ⟨3⟩ =
      .ok "Pair<const Ring<const void*, 4>&, Self[18446744073709551615]>" := rfl
  have loops : ¬ sampleArchive.graph.NameEnds ⟨8⟩ := fun ends =>
    Graph.accIrrefl ends ⟨_, rfl, .target 1 1⟩
  obtain ⟨s, named, _⟩ := (names ⟨3⟩ (by decide)).1 (Graph.namedEnds nested)
  exact ⟨census, outline, diagram, ⟨s, named⟩, (names ⟨8⟩ (by decide)).2 loops⟩

/- No entity roots, and a graph whose one node is a pointer to itself. -/
def loopData : Bytes :=
  [1, 0, 0, 0] ++ [0, 0, 0, 0, 0, 0, 0, 0] ++ [1, 0, 0, 0, 0, 0, 0, 0] ++ [6, 0, 0, 0] ++
    [0, 0, 0, 0] ++ [0, 0, 0, 0, 0, 0, 0, 0] ++ List.replicate Primitive.count 0

def loopGraph : Graph := { Graph.empty with nodes := #[.pointer ⟨0⟩] }

theorem loopUnnamed : load loopData = .ok ⟨[], loopGraph⟩ ∧ loopGraph.nodes.size = 1 ∧
    ∀ fuel, loopGraph.nameWithin fuel ⟨0⟩ = .error .endless := by
  refine ⟨rfl, rfl, fun fuel => ?_⟩
  induction fuel with
  | zero => rfl
  | succ fuel ih => rw [Graph.nameAt (n := .pointer ⟨0⟩) rfl, Node.spelled, ih]; rfl

end ObjectLayout.Archive
