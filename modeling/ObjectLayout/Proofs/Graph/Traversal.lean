import Mathlib.Logic.Relation
import ObjectLayout.Proofs.Graph.Walking

/-! Walks that list a line of its own for each node they meet and go on from there by one rule. Such
a walk tells of the nodes that the rule leads to from where it starts, and of each of them once, however
often it comes by. -/
namespace ObjectLayout

variable {α : Type} {key : α → Option NodeId} {next : Node → List NodeId}

def Item.told? (key : α → Option NodeId) : Item α → Option NodeId
  | .line a => key a
  | .node _ _ => none

def Item.told (key : α → Option NodeId) (items : List (Item α)) : List NodeId :=
  items.filterMap (told? key)

theorem Item.toldAppend (xs ys : List (Item α)) :
    told key (xs ++ ys) = told key xs ++ told key ys := List.filterMap_append

theorem Item.toldNodes (ids : List NodeId) : told key (ids.map (.node 0)) = [] := by
  rw [told, List.filterMap_map]
  exact List.filterMap_none ids

structure Style.Traverses (style : Style α) (key : α → Option NodeId) (next : Node → List NodeId) :
    Prop where
  first : ∀ level number id n, ∃ items, style.first level number id n = .branch items ∧
    Item.told key items = [id] ∧ Item.nodes items = next n
  again : ∀ level number id, (style.again level number id).filterMap key = []

namespace Graph

variable {g : Graph} {met given nodes told : List NodeId} {id : NodeId}

def Leads (g : Graph) (next : Node → List NodeId) (a b : NodeId) : Prop :=
  ∃ n, g.node? a = some n ∧ b ∈ next n

def Reached (g : Graph) (next : Node → List NodeId) (starts : List NodeId) (id : NodeId) : Prop :=
  ∃ start ∈ starts, Relation.ReflTransGen (g.Leads next) start id

/- What is told on the way from `nodes`, when those in `met` have been told of before and those in
`given` are told of in any case. -/
structure Tells (g : Graph) (next : Node → List NodeId) (met given nodes told : List NodeId) :
    Prop where
  lines : ∀ id ∈ given, id ∈ told
  starts : ∀ id ∈ nodes, id ∈ met ∨ id ∈ told
  onward : ∀ id ∈ told, id ∈ given ∨ ∀ c, g.Leads next id c → c ∈ met ∨ c ∈ told
  reached : ∀ id ∈ told, id ∈ given ∨ g.Reached next nodes id
  once : ∀ id, told.count id ≤ given.count id + if id ∈ met then 0 else 1

theorem tellsNothing (g : Graph) (next : Node → List NodeId) (met : List NodeId) :
    Tells g next met [] [] [] := by
  constructor <;> simp

theorem tellsLine (line : Option NodeId) (h : Tells g next met given nodes told) :
    Tells g next met (line.toList ++ given) nodes (line.toList ++ told) := by
  refine ⟨?_, ?_, ?_, ?_, ?_⟩
  · intro id member
    exact (List.mem_append.mp member).elim (List.mem_append_left _)
      (fun later => List.mem_append_right _ (h.lines id later))
  · exact fun id member => (h.starts id member).imp_right (List.mem_append_right _)
  · intro id member
    rcases List.mem_append.mp member with here | later
    · exact .inl (List.mem_append_left _ here)
    · exact (h.onward id later).imp (List.mem_append_right _)
        (fun all c leads => (all c leads).imp_right (List.mem_append_right _))
  · intro id member
    rcases List.mem_append.mp member with here | later
    · exact .inl (List.mem_append_left _ here)
    · exact (h.reached id later).imp_left (List.mem_append_right _)
  · intro id
    have once := h.once id
    rw [List.count_append, List.count_append]
    omega

theorem reachedMore {starts more : List NodeId} (all : ∀ start ∈ starts, g.Reached next more start)
    (reached : g.Reached next starts id) : g.Reached next more id := by
  obtain ⟨start, member, path⟩ := reached
  obtain ⟨first, top, before⟩ := all start member
  exact ⟨first, top, before.trans path⟩

theorem reachedStart {starts : List NodeId} (member : id ∈ starts) : g.Reached next starts id :=
  ⟨id, member, .refl⟩

theorem tellsOld (old : id ∈ met) (h : Tells g next met given nodes told) :
    Tells g next met given (id :: nodes) told where
  lines := h.lines
  starts := List.forall_mem_cons.mpr ⟨.inl old, h.starts⟩
  onward := h.onward
  reached := fun other member => (h.reached other member).imp_right
    (reachedMore (fun _ start => reachedStart (List.mem_cons_of_mem _ start)))
  once := h.once

theorem tellsNew {n : Node} (found : g.node? id = some n) (fresh : id ∉ met)
    (h : Tells g next (met ++ [id]) (id :: given) (next n ++ nodes) told) :
    Tells g next met given (id :: nodes) told := by
  have here : id ∈ told := h.lines id List.mem_cons_self
  have before : ∀ {c}, c ∈ met ++ [id] ∨ c ∈ told → c ∈ met ∨ c ∈ told := by
    rintro c (met | told)
    · rcases List.mem_append.mp met with old | new
      · exact .inl old
      · exact .inr (List.mem_singleton.mp new ▸ here)
    · exact .inr told
  refine ⟨fun c member => h.lines c (List.mem_cons_of_mem _ member), ?_, ?_, ?_, ?_⟩
  · intro c member
    rcases List.mem_cons.mp member with rfl | later
    · exact .inr here
    · exact before (h.starts c (List.mem_append_right _ later))
  · intro c member
    rcases h.onward c member with line | all
    · rcases List.mem_cons.mp line with rfl | line
      · refine .inr (fun child leads => ?_)
        obtain ⟨m, at_c, child⟩ := leads
        cases found.symm.trans at_c
        exact before (h.starts _ (List.mem_append_left _ child))
      · exact .inl line
    · exact .inr (fun child leads => before (all child leads))
  · have top : g.Reached next (id :: nodes) id := reachedStart List.mem_cons_self
    intro c member
    rcases h.reached c member with line | below
    · rcases List.mem_cons.mp line with rfl | line
      · exact .inr top
      · exact .inl line
    · refine .inr (reachedMore (fun start member => ?_) below)
      rcases List.mem_append.mp member with child | later
      · exact ⟨id, List.mem_cons_self, .single ⟨n, found, child⟩⟩
      · exact reachedStart (List.mem_cons_of_mem _ later)
  · intro c
    have once := h.once c
    by_cases same : c = id
    · subst same
      simpa [fresh] using once
    · simpa [same, Ne.symm same, List.count_cons] using once

theorem walkTells {style : Style α} (traverses : style.Traverses key next)
    {items : List (Item α)} {lines} (walked : g.walk style met items = .ok lines) :
    Tells g next met (Item.told key items) (Item.nodes items) (lines.filterMap key) := by
  fun_induction g.walk style met items generalizing lines with
  | case1 met =>
    cases walked
    exact tellsNothing g next met
  | case2 met a rest ih =>
    obtain ⟨others, after, same⟩ := bindAnswers.mp walked
    cases same
    have told : ∀ xs : List α, (a :: xs).filterMap key = (key a).toList ++ xs.filterMap key := by
      intro xs
      cases line : key a <;> simp [line]
    have given : Item.told key (.line a :: rest) = (key a).toList ++ Item.told key rest := by
      cases line : key a <;> simp [Item.told, Item.told?, line]
    rw [told, given]
    exact tellsLine (key a) (ih after)
  | case3 met level id rest number old ih =>
    obtain ⟨others, after, same⟩ := bindAnswers.mp walked
    cases same
    have before : id ∈ met := by
      by_contra absent
      rw [List.idxOf?_eq_none_iff.mpr absent] at old
      contradiction
    rw [List.filterMap_append, traverses.again]
    exact tellsOld before (ih after)
  | case4 met level id rest fresh missing => contradiction
  | case5 met level id rest fresh n found here leaf ih =>
    obtain ⟨items, branch, _⟩ := traverses.first level met.length id n
    rw [leaf] at branch
    contradiction
  | case6 met level id rest fresh n found items branch less ih =>
    obtain ⟨others, first, told, nodes⟩ := traverses.first level met.length id n
    cases branch.symm.trans first
    have below := ih walked
    rw [Item.toldAppend, Item.nodesAppend, told, nodes] at below
    exact tellsNew found (List.idxOf?_eq_none_iff.mp fresh) below

theorem listTells {style : Style α} (traverses : style.Traverses key next) {starts : List NodeId}
    {lines} (listed : g.list style starts = .ok lines) :
    (lines.filterMap key).Nodup ∧
      ∀ id, id ∈ lines.filterMap key ↔ g.Reached next starts id := by
  have tells := walkTells traverses listed
  rw [Item.nodesAll, Item.toldNodes] at tells
  refine ⟨List.nodup_iff_count.mpr tells.once, fun id => ⟨fun told => ?_, ?_⟩⟩
  · exact (tells.reached id told).resolve_left List.not_mem_nil
  · rintro ⟨start, member, path⟩
    induction path with
    | refl => exact (tells.starts start member).resolve_left List.not_mem_nil
    | tail _ leads ih =>
      have onward := (tells.onward _ ih).resolve_left List.not_mem_nil
      exact (onward _ leads).resolve_left List.not_mem_nil

end Graph
end ObjectLayout
