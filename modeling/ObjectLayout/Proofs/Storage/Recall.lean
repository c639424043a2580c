import ObjectLayout.Proofs.Storage.Handles
import ObjectLayout.Proofs.Storage.Layout

/-! What is stored is loaded again, whatever follows it. A stored archive may hold handles that name
no node of it: the first of these is told in place of the archive. -/
namespace ObjectLayout.Archive

open Codec

theorem loadStored {a : Archive} (fit : a.Fits) (rest : Bytes) :
    (a.firstDangling = none → load (a.store ++ rest) = .ok a) ∧
      ∀ id, a.firstDangling = some id → load (a.store ++ rest) = .error (.dangling id) := by
  have version : word32.read (a.store ++ rest) = .ok (formatVersion, archive.write a ++ rest) := by
    simp only [store, List.append_assoc]
    exact exactWord32.returns (by decide) _
  have read : archive.read (archive.write a ++ rest) = .ok (a, rest) := archiveReturns fit rest
  constructor
  · intro none
    simp only [load, version, read, none, ne_eq, not_true_eq_false, if_false]
  · intro id dangling
    simp only [load, version, read, dangling, ne_eq, not_true_eq_false, if_false]

theorem firstOutside {a : Archive} {before after : List NodeId} {id : NodeId}
    (split : a.handles = before ++ id :: after)
    (inside : ∀ other ∈ before, other.raw < a.graph.nodes.size)
    (outside : a.graph.nodes.size ≤ id.raw) : a.firstDangling = some id := by
  rw [firstDanglingFinds, split, List.find?_append]
  have skipped : before.find? (fun other => a.graph.nodes.size ≤ other.raw) = none := by
    rw [List.find?_eq_none]
    intro other member
    simpa using inside other member
  rw [skipped, List.find?_cons_of_pos (by simpa using outside), Option.none_or]

theorem storedRecalled {a : Archive} (fit : a.Fits) (rest : Bytes) :
    ((∀ id ∈ a.handles, id.raw < a.graph.nodes.size) → load (a.store ++ rest) = .ok a) ∧
      ∀ before id after, a.handles = before ++ id :: after →
        (∀ other ∈ before, other.raw < a.graph.nodes.size) → a.graph.nodes.size ≤ id.raw →
        load (a.store ++ rest) = .error (.dangling id) := by
  constructor
  · intro inside
    have none : a.firstDangling = none := by
      rw [firstDanglingFinds, List.find?_eq_none]
      intro id held
      simpa using inside id held
    exact (loadStored fit rest).1 none
  · intro before id after split inside outside
    exact (loadStored fit rest).2 id (firstOutside split inside outside)

/- A record with a part of every form, an enum with a name for the least of all values, and a node
of every other kind but for those that are plain. -/
def sampleArchive : Archive where
  roots := [⟨"größe", ⟨1⟩⟩, ⟨"", ⟨0⟩⟩]
  graph := {
    nodes := #[.primitive .stubbedPointer,
      .record ⟨.classKind, "Ring", "Ring<const void*, 4>", 24, 8, true,
        [.type ⟨0⟩ ⟨255⟩, .value ⟨2⟩ "4", .template "Alloc"], [⟨⟨3⟩, 64⟩],
        [⟨"next", ⟨4⟩, 128, 0⟩, ⟨"flag", ⟨2⟩, 0, 1⟩], [⟨"get", true⟩, ⟨"set", false⟩]⟩,
      .enum ⟨"Color", 4, .ofListed [(Int64.minValue, "red"), (Int64.maxValue, "green")]⟩,
      .container ⟨"Pair", 16, 8, [.type ⟨5⟩ .const, .type ⟨6⟩ .empty]⟩,
      .pointer ⟨1⟩, .reference ⟨1⟩, .array ⟨7⟩ 18446744073709551615, .typedef ("Self") ⟨7⟩,
      .allocator ⟨8⟩ 1 1, .incomplete "Hidden", .dummy 3 0]
    roots := [⟨1⟩, ⟨1⟩]
    slots := Graph.empty.slots.setIfInBounds (Primitive.index .stubbedPointer) (some ⟨0⟩) }

def strayArchive : Archive where
  roots := sampleArchive.roots
  graph := {
    nodes := #[.record ⟨.structKind, "Stray", "Stray", 8, 8, false, [], [], [⟨"a", ⟨9⟩, 0, 0⟩], []⟩,
      .pointer ⟨0⟩]
    roots := [⟨0⟩, ⟨4294967295⟩]
    slots := Graph.empty.slots }

theorem sampleFits : sampleArchive.Fits := by decide +kernel

theorem strayFits : strayArchive.Fits := by decide +kernel

theorem samplesRecalled :
    load (sampleArchive.store ++ [1, 2, 3]) = .ok sampleArchive ∧
      load (strayArchive.store ++ [1, 2, 3]) = .error (.dangling ⟨4294967295⟩) :=
  ⟨(storedRecalled sampleFits [1, 2, 3]).1 (by decide),
    (storedRecalled strayFits [1, 2, 3]).2 [⟨1⟩, ⟨0⟩, ⟨0⟩] ⟨4294967295⟩ [⟨9⟩, ⟨0⟩] (by decide)
      (by decide) (by decide)⟩

end ObjectLayout.Archive
