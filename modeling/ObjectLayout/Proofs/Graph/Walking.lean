import Mathlib.Data.List.Basic
import ObjectLayout.Graph.Diagram
import ObjectLayout.Graph.Outline
import ObjectLayout.Proofs.Graph.Closed

/-! Walks of a closed graph. A walk that goes on from a node to nothing but what the node mentions
never leaves the graph, and it comes to its end: it meets a node for the first time no more often
than there are nodes. -/
namespace ObjectLayout

variable {α : Type}

theorem bindAnswers {ε β : Type} {x : Except ε α} {f : α → Except ε β} {b : β} :
    (x >>= f) = .ok b ↔ ∃ a, x = .ok a ∧ f a = .ok b := by
  cases x with
  | error e => simp [bind, Except.bind]
  | ok a => simp [bind, Except.bind]

def Inside (g : Graph) (items : List (Item α)) : Prop :=
  ∀ level id, .node level id ∈ items → id.raw < g.nodes.size

def Style.Stays (style : Style α) : Prop :=
  ∀ level number id n items, style.first level number id n = .branch items →
    ∀ below child, .node below child ∈ items → n.Mentions child

namespace Item

def node? : Item α → Option NodeId
  | .line _ => none
  | .node _ id => some id

def nodes (items : List (Item α)) : List NodeId := items.filterMap node?

theorem inNodes {items : List (Item α)} {level : Nat} {id : NodeId}
    (member : .node level id ∈ items) : id ∈ nodes items := List.mem_filterMap.mpr ⟨_, member, rfl⟩

theorem nodesAppend (xs ys : List (Item α)) : nodes (xs ++ ys) = nodes xs ++ nodes ys :=
  List.filterMap_append

theorem nodesEach {β : Type} {items : β → List (Item α)} {id : β → Option NodeId} (xs : List β)
    (each : ∀ x, nodes (items x) = (id x).toList) :
    nodes (xs.flatMap items) = xs.filterMap id := by
  rw [List.filterMap_eq_flatMap_toList, nodes, List.filterMap_flatMap]
  exact congrArg (xs.flatMap ·) (funext each)

theorem nodesOne {β : Type} {items : β → List (Item α)} {id : β → NodeId} (xs : List β)
    (one : ∀ x, nodes (items x) = [id x]) : nodes (xs.flatMap items) = xs.map id :=
  (nodesEach xs one).trans (congrFun List.filterMap_eq_map xs)

theorem nodesAll (level : Nat) (ids : List NodeId) :
    nodes (ids.map (Item.node (α := α) level)) = ids := by
  rw [nodes, List.filterMap_map]
  exact List.filterMap_some

theorem nodesNone {β : Type} (line : β → α) (xs : List β) :
    nodes (xs.map (fun x => .line (line x))) = [] := by
  rw [nodes, List.filterMap_map]
  exact List.filterMap_none xs

end Item

namespace Graph

theorem insideTail {g : Graph} {item : Item α} {rest : List (Item α)}
    (inside : Inside g (item :: rest)) : Inside g rest :=
  fun level id member => inside level id (List.mem_cons_of_mem item member)

section
variable {g : Graph} {style : Style α} {met : List NodeId} {level : Nat} {id : NodeId}
  {rest items : List (Item α)} {n : Node}

theorem walkOld {number : Nat} (old : met.idxOf? id = some number) :
    g.walk style met (.node level id :: rest) =
      (do let lines ← g.walk style met rest; .ok (style.again level number id ++ lines)) := by
  rw [walk]
  split
  · rename_i other same
    cases old.symm.trans same
    rfl
  · rename_i fresh
    rw [old] at fresh
    contradiction

theorem walkMissing (fresh : met.idxOf? id = none) (missing : g.node? id = none) :
    g.walk style met (.node level id :: rest) = .error (.missingNode id) := by
  rw [walk]
  split
  · rename_i number old
    rw [fresh] at old
    contradiction
  · split
    · rfl
    · rename_i n found
      rw [missing] at found
      contradiction

theorem walkFirst (fresh : met.idxOf? id = none) (found : g.node? id = some n) :
    g.walk style met (.node level id :: rest) =
      (match style.first level met.length id n with
        | .leaf here => do let lines ← g.walk style met rest; .ok (here ++ lines)
        | .branch items => g.walk style (met ++ [id]) (items ++ rest)) := by
  rw [walk]
  split
  · rename_i number old
    rw [fresh] at old
    contradiction
  · split
    · rename_i missing
      rw [found] at missing
      contradiction
    · rename_i m at_id
      cases found.symm.trans at_id
      rfl

theorem walkNew (fresh : met.idxOf? id = none) (found : g.node? id = some n)
    (branch : style.first level met.length id n = .branch items) :
    g.walk style met (.node level id :: rest) = g.walk style (met ++ [id]) (items ++ rest) := by
  rw [walkFirst fresh found, branch]

end

theorem walkLines {g : Graph} {style : Style α} {met : List NodeId} (lines : List α) :
    g.walk style met (lines.map .line) = .ok lines := by
  induction lines with
  | nil => simp [walk]
  | cons a rest ih => simp [walk, ih, bind, Except.bind]

theorem walkEnds {g : Graph} (closed : g.Closed) {style : Style α} (stays : style.Stays)
    {met : List NodeId} {items : List (Item α)} (inside : Inside g items) :
    ∃ lines, g.walk style met items = .ok lines := by
  fun_induction g.walk style met items with
  | case1 met => exact ⟨[], rfl⟩
  | case2 met a rest ih =>
    obtain ⟨lines, walked⟩ := ih (insideTail inside)
    exact ⟨a :: lines, by rw [walked]; rfl⟩
  | case3 met level id rest number old ih =>
    obtain ⟨lines, walked⟩ := ih (insideTail inside)
    exact ⟨style.again level number id ++ lines, by rw [walked]; rfl⟩
  | case4 met level id rest fresh missing =>
    obtain ⟨n, found⟩ := nodeOfInside (inside level id List.mem_cons_self)
    rw [missing] at found
    contradiction
  | case5 met level id rest fresh n found here leaf ih =>
    obtain ⟨lines, walked⟩ := ih (insideTail inside)
    exact ⟨here ++ lines, by rw [walked]; rfl⟩
  | case6 met level id rest fresh n found items branch less ih =>
    apply ih
    intro below child member
    rcases List.mem_append.mp member with new | old
    · exact closed.children id n child found (stays level _ id n items branch below child new)
    · exact insideTail inside below child old

theorem listEnds {g : Graph} (closed : g.Closed) {style : Style α} (stays : style.Stays)
    {ids : List NodeId} (inside : ∀ id ∈ ids, id.raw < g.nodes.size) :
    ∃ lines, g.list style ids = .ok lines := by
  apply walkEnds closed stays
  intro level id member
  obtain ⟨start, given, same⟩ := List.mem_map.mp member
  cases same
  exact inside id given

theorem visitStays : visitStyle.Stays := by
  intro level number id n items branch below child member
  cases branch
  have shown := Item.inNodes member
  exact Node.mentionsChild.mpr (Item.nodesAll (α := NodeId × Node) 0 n.children ▸ shown)

end Graph

namespace Outline

theorem paramNodes (level : Nat) (p : TemplateParam) :
    Item.nodes (paramItems level p) = p.type?.toList := by
  cases p with
  | type ty qualifiers =>
    simp only [paramItems]
    split <;> rfl
  | value | template => rfl

theorem partNodes (level : Nat) (n : Node) : Item.nodes (partItems level n) = n.children := by
  cases n with
  | record r =>
    have params := Item.nodesEach r.params (paramNodes level)
    have functions := Item.nodesNone (fun f => (⟨level, .note f.title⟩ : Row)) r.functions
    simp only [partItems, Item.nodesAppend, note, params, functions, List.append_nil]
    rw [Item.nodesOne r.parents (fun _ => rfl), Item.nodesOne r.members (fun _ => rfl)]
    rfl
  | container c => exact Item.nodesEach c.params (paramNodes level)
  | enum e => exact Item.nodesNone _ e.enumerators.entries
  | _ => rfl

theorem firstBranch {n : Node} (plain : n.kind ≠ .primitive) (level number : Nat) (id : NodeId) :
    style.first level number id n =
      .branch (.line ⟨level, .header number id n.title⟩ :: partItems (level + 1) n) := by
  cases n with
  | primitive => exact absurd rfl plain
  | _ => rfl

theorem stays : style.Stays := by
  intro level number id n items branch below child member
  cases n with
  | primitive => contradiction
  | _ =>
    cases branch
    have shown := Item.inNodes member
    exact Node.mentionsChild.mpr (partNodes (level + 1) _ ▸ shown)

end Outline

namespace Diagram

def drawn? : TemplateParam → Option NodeId
  | .type ty _ => some ty
  | .value _ _ | .template _ => none

def drawn : Node → List NodeId
  | .record r => r.params.filterMap drawn? ++ r.parents.map Parent.ty ++ r.members.map Member.ty
  | .container c => c.params.filterMap drawn?
  | n => n.children

theorem drawnParams {ps : List TemplateParam} {id : NodeId} (member : id ∈ ps.filterMap drawn?) :
    id ∈ ps.filterMap TemplateParam.type? := by
  obtain ⟨p, held, same⟩ := List.mem_filterMap.mp member
  refine List.mem_filterMap.mpr ⟨p, held, ?_⟩
  cases p with
  | type ty qualifiers => exact same
  | value | template => contradiction

theorem drawnChild {n : Node} {id : NodeId} (member : id ∈ drawn n) : id ∈ n.children := by
  cases n with
  | record r =>
    rcases List.mem_append.mp member with front | back
    · refine List.mem_append_left _ ?_
      rcases List.mem_append.mp front with params | parents
      · exact List.mem_append_left _ (drawnParams params)
      · exact List.mem_append_right _ parents
    · exact List.mem_append_right _ back
  | container c => exact drawnParams member
  | _ => exact member

theorem indexedNodes {β : Type} {items : β → Nat → List (Item Statement)}
    {id : β → Option NodeId} (xs : List β)
    (each : ∀ x index, Item.nodes (items x index) = (id x).toList) :
    Item.nodes (indexed items xs) = xs.filterMap id := by
  have plain : (xs.zipIdx.map Prod.fst).filterMap id = xs.filterMap id := by
    rw [List.zipIdx_map_fst]
  rw [List.filterMap_map] at plain
  exact (Item.nodesEach xs.zipIdx (fun x => each x.1 x.2)).trans plain

theorem paramNodes (id : NodeId) (p : TemplateParam) (index : Nat) :
    Item.nodes (paramItems id p index) = (drawn? p).toList := by
  cases p <;> rfl

theorem partNodes (id : NodeId) (n : Node) : Item.nodes (partsOf id n) = drawn n := by
  cases n with
  | record r =>
    have params := indexedNodes r.params (paramNodes id)
    have parents : Item.nodes (indexed (parentItems id) r.parents) = r.parents.map Parent.ty :=
      (indexedNodes r.parents (fun _ _ => rfl)).trans (congrFun List.filterMap_eq_map _)
    have members : Item.nodes (indexed (memberItems id) r.members) = r.members.map Member.ty :=
      (indexedNodes r.members (fun _ _ => rfl)).trans (congrFun List.filterMap_eq_map _)
    have functions : Item.nodes (indexed (functionItems id) r.functions) = [] :=
      (indexedNodes r.functions (fun _ _ => rfl)).trans (List.filterMap_none _)
    simp only [partsOf, Item.nodesAppend, params, parents, members, functions, List.append_nil]
    rfl
  | container c => exact indexedNodes c.params (paramNodes id)
  | _ => rfl

theorem stays : style.Stays := by
  intro level number id n items branch below child member
  cases branch
  have shown := Item.inNodes member
  exact Node.mentionsChild.mpr (drawnChild (partNodes id n ▸ shown))

end Diagram
end ObjectLayout
