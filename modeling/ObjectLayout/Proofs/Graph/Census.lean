import Mathlib.Data.List.Nodup
import Mathlib.Data.List.Perm.Subperm
import Mathlib.Algebra.BigOperators.Group.List.Basic
import Mathlib.Algebra.GroupWithZero.Nat
import Mathlib.Data.Finset.Card
import ObjectLayout.Proofs.Graph.Listing
import ObjectLayout.Proofs.Graph.Renaming
import ObjectLayout.Proofs.Graph.Tally

/-! The census of a closed graph. It counts each node below the roots once and as what it is, hence no
more nodes than there are, and all of them if there is none but those below the roots. -/
namespace ObjectLayout.Graph

variable {g : Graph}

def Rooted (g : Graph) : Prop :=
  ∀ id, id.raw < g.nodes.size → ∃ root ∈ g.roots, id ∈ g.below root

theorem visitTraverses : visitStyle.Traverses (fun v => some v.1) Node.children where
  first := fun _ _ id n =>
    ⟨_, rfl, congrArg (id :: ·) (Item.toldNodes n.children), Item.nodesAll 0 n.children⟩
  again := fun _ _ _ => rfl

theorem visitLists : visitStyle.Lists (fun id n => [(id, n)]) where
  first := fun _ _ id n =>
    ⟨_, rfl, congrArg ((id, n) :: ·) (Item.linesNodes 0 n.children)⟩
  again := fun _ _ _ => rfl

theorem visitsFound {seen : List (NodeId × Node)} (visited : g.visits = .ok seen) :
    ∀ v ∈ seen, g.node? v.1 = some v.2 := by
  obtain ⟨listed, found, same⟩ := listLists visitLists visited
  rw [List.flatMap_singleton'] at same
  exact fun v member => found v (same.mem_iff.mp member)

def numbers (g : Graph) : List NodeId := (List.range g.nodes.size).map NodeId.mk

theorem inNumbers {id : NodeId} : id ∈ g.numbers ↔ id.raw < g.nodes.size := by
  constructor
  · intro member
    obtain ⟨i, inside, rfl⟩ := List.mem_map.mp member
    exact List.mem_range.mp inside
  · exact fun inside => List.mem_map.mpr ⟨id.raw, List.mem_range.mpr inside, rfl⟩

theorem numbersNodup (g : Graph) : g.numbers.Nodup :=
  List.nodup_range.map (fun _ _ same => congrArg NodeId.raw same)

theorem numbersLength (g : Graph) : g.numbers.length = g.nodes.size := by
  rw [numbers, List.length_map, List.length_range]

theorem belowInside (closed : g.Closed) {root id : NodeId} (top : root ∈ g.roots)
    (reached : id ∈ g.below root) : id.raw < g.nodes.size := by
  induction reached with
  | refl => exact closed.roots root top
  | tail _ points ih =>
    obtain ⟨n, found, child⟩ := points
    exact closed.children _ n _ found (Node.mentionsChild.mpr child)

def IsKind (g : Graph) (kind : NodeKind) (id : NodeId) : Prop :=
  (g.node? id).map Node.kind = some kind

instance (kind : NodeKind) : DecidablePred (g.IsKind kind) :=
  fun _ => inferInstanceAs (Decidable (_ = _))

structure Counts (g : Graph) (c : Census) (ids : List NodeId) : Prop where
  total : c.total = ids.length
  kinds : ∀ kind, c.count kind = ids.countP (g.IsKind kind)
  distinct : ids.Nodup
  reached : ∀ id, id ∈ ids ↔ g.Reached Node.children g.roots id

theorem visitedKinds {seen : List (NodeId × Node)} (found : ∀ v ∈ seen, g.node? v.1 = some v.2)
    (kind : NodeKind) :
    (seen.map (fun v => v.2.kind)).count kind = (seen.map Prod.fst).countP (g.IsKind kind) := by
  rw [List.count, List.countP_map, List.countP_map]
  refine List.countP_congr (fun v member => ?_)
  simp [IsKind, found v member]

theorem censusCounts (closed : g.Closed) : ∃ c ids, g.census = .ok c ∧ g.Counts c ids := by
  obtain ⟨seen, visited⟩ := listEnds closed visitStays closed.roots
  obtain ⟨distinct, told⟩ := listTells visitTraverses visited
  rw [List.filterMap_eq_map'] at distinct told
  refine ⟨⟨seen.map (fun v => v.2.kind)⟩, seen.map Prod.fst,
    bindAnswers.mpr ⟨seen, visited, rfl⟩, ?_, ?_, distinct, told⟩
  · simp only [Census.total, List.length_map]
  · exact visitedKinds (visitsFound visited)

theorem censusEnds (closed : g.Closed) : ∃ c, g.census = .ok c ∧ c.total ≤ g.nodes.size := by
  obtain ⟨c, ids, counted, counts⟩ := censusCounts closed
  have inside : ids ⊆ g.numbers := by
    intro id member
    obtain ⟨root, top, reached⟩ := (counts.reached id).mp member
    exact inNumbers.mpr (belowInside closed top reached)
  refine ⟨c, counted, ?_⟩
  rw [counts.total, ← numbersLength g]
  exact (List.subperm_of_subset counts.distinct inside).length_le

theorem censusRooted (closed : g.Closed) (rooted : g.Rooted) :
    ∃ c, g.census = .ok c ∧ c.total = g.nodes.size := by
  obtain ⟨c, ids, counted, counts⟩ := censusCounts closed
  have same : ids.length = g.numbers.length := by
    refine List.Perm.length_eq ((List.perm_ext_iff_of_nodup counts.distinct (numbersNodup g)).mpr ?_)
    intro id
    rw [counts.reached, inNumbers]
    exact ⟨fun ⟨root, top, reached⟩ => belowInside closed top reached, rooted id⟩
  exact ⟨c, counted, by rw [counts.total, same, numbersLength]⟩

theorem kindsTotal (c : Census) : (NodeKind.all.map c.count).sum = c.total := by
  obtain ⟨kinds⟩ := c
  change (NodeKind.all.map (fun other => kinds.count other)).sum = kinds.length
  induction kinds with
  | nil => rfl
  | cons kind kinds ih =>
    have here : (NodeKind.all.map (fun other => if kind == other then 1 else 0)).sum = 1 := by
      cases kind <;> rfl
    simp only [List.count_cons, List.sum_map_add, ih, here, List.length_cons]

theorem censusExact {g : Graph} (whole : g.firstDangling = none) :
    ∃ c, g.census = .ok c ∧ g.tally [] (fun _ => 0) g.roots = .ok c.count ∧
      ∃ closure : Finset NodeId,
      (∀ id, id ∈ closure ↔ g.Reached Node.children g.roots id) ∧
      (∀ kind, c.count kind = (closure.filter (g.IsKind kind)).card) ∧
      c.total = closure.card ∧ (NodeKind.all.map c.count).sum = closure.card := by
  obtain ⟨c, ids, counted, counts⟩ := censusCounts (wholeClosed whole)
  have total : c.total = ids.toFinset.card := by
    rw [List.toFinset_card_of_nodup counts.distinct, counts.total]
  have tallied : g.tally [] (fun _ => 0) g.roots = .ok c.count := by
    rw [tallyCensus, counted]
    rfl
  refine ⟨c, counted, tallied, ids.toFinset, ?_, ?_, total, (kindsTotal c).trans total⟩
  · exact fun id => List.mem_toFinset.trans (counts.reached id)
  · intro kind
    have same : ids.toFinset.filter (g.IsKind kind) = (ids.filter (g.IsKind kind)).toFinset := by
      ext id
      simp only [Finset.mem_filter, List.mem_toFinset, List.mem_filter, decide_eq_true_eq]
    rw [same, List.toFinset_card_of_nodup (counts.distinct.filter _), counts.kinds,
      List.countP_eq_length_filter]

/- Two records that hold each other's address, entered from three sides, and a type that nothing
leads to. -/
def wheelGraph : Graph where
  nodes := #[
    .record ⟨.structKind, "Hub", "Hub<Rim>", 8, 8, false, [.type ⟨1⟩ .empty], [], [⟨"rim", ⟨2⟩, 0, 0⟩], []⟩,
    .record ⟨.structKind, "Rim", "Rim", 16, 8, false, [], [⟨⟨4⟩, 0⟩], [⟨"hub", ⟨3⟩, 64, 0⟩], []⟩,
    .pointer ⟨1⟩, .pointer ⟨0⟩, .incomplete "incomplete type `Base`", .primitive .bool]
  roots := [⟨3⟩, ⟨0⟩, ⟨3⟩]
  slots := Graph.empty.slots.setIfInBounds (Primitive.index .bool) (some ⟨5⟩)

theorem wheelCensus : ∃ c, wheelGraph.census = .ok c ∧
    wheelGraph.tally [] (fun _ => 0) wheelGraph.roots = .ok c.count ∧ ∃ closure : Finset NodeId,
    (∀ id, id ∈ closure ↔ wheelGraph.Reached Node.children wheelGraph.roots id) ∧
    (∀ kind, c.count kind = (closure.filter (wheelGraph.IsKind kind)).card) ∧
    c.total = closure.card ∧ (NodeKind.all.map c.count).sum = closure.card :=
  censusExact rfl

end ObjectLayout.Graph
