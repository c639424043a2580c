import Mathlib.Data.List.Perm.Basic
import ObjectLayout.Proofs.Graph.Traversal

/-! What a walk lists, whatever the order. Where a node met again adds nothing, every line is either given
from the start or a line of a node that was met, and no node gives its lines twice. -/
namespace ObjectLayout

variable {α : Type} {own : NodeId → Node → List α}

namespace Item

def line? : Item α → Option α
  | .line a => some a
  | .node _ _ => none

def lines (items : List (Item α)) : List α := items.filterMap line?

theorem linesAppend (xs ys : List (Item α)) : lines (xs ++ ys) = lines xs ++ lines ys :=
  List.filterMap_append

theorem linesNodes (level : Nat) (ids : List NodeId) :
    lines (ids.map (Item.node (α := α) level)) = [] := by
  rw [lines, List.filterMap_map]
  exact List.filterMap_none ids

theorem toldLines (key : α → Option NodeId) (items : List (Item α)) :
    told key items = (lines items).filterMap key := by
  rw [told, lines, List.filterMap_filterMap]
  refine List.filterMap_congr (fun item _ => ?_)
  cases item <;> rfl

end Item

structure Style.Lists (style : Style α) (own : NodeId → Node → List α) : Prop where
  first : ∀ level number id n, ∃ items, style.first level number id n = .branch items ∧
    Item.lines items = own id n
  again : ∀ level number id, style.again level number id = []

namespace Graph

variable {g : Graph}

theorem walkLists {style : Style α} (lists : style.Lists own) {met : List NodeId}
    {items : List (Item α)} {lines} (walked : g.walk style met items = .ok lines) :
    ∃ seen : List (NodeId × Node), (∀ v ∈ seen, g.node? v.1 = some v.2) ∧
      lines.Perm (Item.lines items ++ seen.flatMap (fun v => own v.1 v.2)) := by
  fun_induction g.walk style met items generalizing lines with
  | case1 met =>
    cases walked
    exact ⟨[], fun _ member => absurd member List.not_mem_nil, .refl _⟩
  | case2 met a rest ih =>
    obtain ⟨others, after, same⟩ := bindAnswers.mp walked
    cases same
    obtain ⟨seen, found, listed⟩ := ih after
    exact ⟨seen, found, listed.cons a⟩
  | case3 met level id rest number old ih =>
    obtain ⟨others, after, same⟩ := bindAnswers.mp walked
    cases same
    rw [lists.again]
    exact ih after
  | case4 met level id rest fresh missing => contradiction
  | case5 met level id rest fresh n found here leaf ih =>
    obtain ⟨items, branch, _⟩ := lists.first level met.length id n
    rw [leaf] at branch
    contradiction
  | case6 met level id rest fresh n found items branch less ih =>
    obtain ⟨others, first, mine⟩ := lists.first level met.length id n
    cases branch.symm.trans first
    obtain ⟨seen, answers, listed⟩ := ih walked
    refine ⟨(id, n) :: seen, List.forall_mem_cons.mpr ⟨found, answers⟩, listed.trans ?_⟩
    -- the lines of the new node change places with those that were still to come
    rw [Item.linesAppend, mine, List.flatMap_cons, List.append_assoc]
    exact List.perm_append_comm_assoc (own id n) (Item.lines rest) _

theorem listLists {style : Style α} (lists : style.Lists own) {ids : List NodeId} {lines}
    (listed : g.list style ids = .ok lines) :
    ∃ seen : List (NodeId × Node), (∀ v ∈ seen, g.node? v.1 = some v.2) ∧
      lines.Perm (seen.flatMap (fun v => own v.1 v.2)) := by
  obtain ⟨seen, found, all⟩ := walkLists lists listed
  rw [Item.linesNodes, List.nil_append] at all
  exact ⟨seen, found, all⟩

theorem listOnce {key : α → Option NodeId} {next : Node → List NodeId} {style : Style α}
    (traverses : style.Traverses key next) (lists : style.Lists own) {starts : List NodeId} {lines}
    (listed : g.list style starts = .ok lines) :
    ∃ seen : List (NodeId × Node), (∀ v ∈ seen, g.node? v.1 = some v.2) ∧
      (seen.map Prod.fst).Nodup ∧ (∀ id, id ∈ seen.map Prod.fst ↔ g.Reached next starts id) ∧
      lines.Perm (seen.flatMap (fun v => own v.1 v.2)) := by
  obtain ⟨seen, found, same⟩ := listLists lists listed
  obtain ⟨distinct, told⟩ := listTells traverses listed
  have once : ∀ id n, (own id n).filterMap key = [id] := by
    intro id n
    obtain ⟨items, branch, tells, _⟩ := traverses.first 0 0 id n
    obtain ⟨others, again, mine⟩ := lists.first 0 0 id n
    cases branch.symm.trans again
    rw [← mine, ← Item.toldLines, tells]
  have keys : (lines.filterMap key).Perm (seen.map Prod.fst) := by
    have mapped := same.filterMap key
    rw [List.filterMap_flatMap] at mapped
    simpa only [once, List.map_eq_flatMap] using mapped
  exact ⟨seen, found, keys.nodup_iff.mp distinct,
    fun id => keys.mem_iff.symm.trans (told id), same⟩

end Graph
end ObjectLayout
