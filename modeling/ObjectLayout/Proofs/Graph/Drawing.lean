import ObjectLayout.Proofs.Graph.Renaming
import ObjectLayout.Proofs.Graph.Traversal

/-! Which nodes a diagram shows. Each node that the edges of the diagram lead to from the roots is one
vertex of it, under a name that no other vertex has. The edges leave out one kind of child, the type of
a value argument. -/
namespace ObjectLayout.Diagram

theorem digitsEqual {a b : Nat} (same : Nat.toDigits 10 a = Nat.toDigits 10 b) : a = b := by
  rw [← Nat.ofDigitChars_ten_toDigits (n := a), same, Nat.ofDigitChars_ten_toDigits]

theorem stringText (s : String) : toString s = s := rfl

def Vertex.owner : Vertex → NodeId
  | .node id | .param id _ | .parent id _ | .member id _ | .function id _ => id

def Vertex.place? : Vertex → Option (Char × Nat)
  | .node _ => none
  | .param _ index => some ('t', index)
  | .parent _ index => some ('p', index)
  | .member _ index => some ('m', index)
  | .function _ index => some ('f', index)

def placeChars : Option (Char × Nat) → List Char
  | none => []
  | some (sort, index) => '_' :: sort :: Nat.toDigits 10 index

theorem nameChars (v : Vertex) :
    v.name.toList = 'n' :: (Nat.toDigits 10 v.owner.raw ++ placeChars v.place?) := by
  cases v <;> simp [Vertex.name, Vertex.owner, Vertex.place?, placeChars, stringText]

/- No digit is an underscore, so the number of the owner ends where the place begins. -/
theorem ownerChars (n : Nat) (place : Option (Char × Nat)) :
    (Nat.toDigits 10 n ++ placeChars place).takeWhile (· ≠ '_') = Nat.toDigits 10 n := by
  have digits : ∀ c ∈ Nat.toDigits 10 n, (decide (c ≠ '_')) = true := by
    intro c member
    exact decide_eq_true (fun same => Nat.underscore_not_in_toDigits (same ▸ member))
  rw [List.takeWhile_append_of_pos digits]
  cases place <;> simp [placeChars]

theorem placeEqual {a b : Option (Char × Nat)} (same : placeChars a = placeChars b) : a = b := by
  cases a with
  | none => cases b with
    | none => rfl
    | some => contradiction
  | some first => cases b with
    | none => contradiction
    | some second =>
      obtain ⟨_, rest⟩ := List.cons.inj same
      obtain ⟨sort, digits⟩ := List.cons.inj rest
      exact congrArg some (Prod.ext sort (digitsEqual digits))

theorem vertexEqual {v w : Vertex} (owners : v.owner = w.owner) (places : v.place? = w.place?) :
    v = w := by
  cases v <;> cases w <;> simp_all [Vertex.owner, Vertex.place?]

theorem nameInjective : Function.Injective Vertex.name := by
  intro v w same
  have chars := congrArg String.toList same
  rw [nameChars, nameChars] at chars
  have rest := (List.cons.inj chars).2
  have numbers := congrArg (List.takeWhile (· ≠ '_')) rest
  rw [ownerChars, ownerChars] at numbers
  rw [numbers] at rest
  have owners : v.owner = w.owner := congrArg NodeId.mk (digitsEqual numbers)
  exact vertexEqual owners (placeEqual (List.append_cancel_left rest))

theorem nodeName {v : Vertex} {id : NodeId} : v.name = (Vertex.node id).name ↔ v = .node id :=
  nameInjective.eq_iff

def Statement.shown? : Statement → Option NodeId
  | .vertex (.node id) _ => some id
  | _ => none

def Statement.declares (name : String) : Statement → Bool
  | .vertex v _ => v.name = name
  | .edge _ _ => false

theorem declaresNode (line : Statement) (id : NodeId) :
    line.declares (Vertex.node id).name = (line.shown? == some id) := by
  cases line with
  | edge source target => rfl
  | vertex v label =>
    simp only [Statement.declares, nodeName]
    cases v with
    | node other => simpa [Statement.shown?] using (beq_eq_decide other id).symm
    | _ => simp [Statement.shown?]

theorem countDeclared (lines : List Statement) (id : NodeId) :
    lines.countP (Statement.declares (Vertex.node id).name) =
      (lines.filterMap Statement.shown?).count id := by
  rw [List.count_filterMap]
  exact List.countP_congr (fun line _ => by rw [declaresNode])

theorem toldEach {β : Type} (items : β → Nat → List (Item Statement))
    (each : ∀ x index, Item.told Statement.shown? (items x index) = []) (xs : List β) :
    Item.told Statement.shown? (indexed items xs) = [] := by
  rw [indexed, Item.told, List.filterMap_flatMap, List.flatMap_eq_nil_iff]
  exact fun pair _ => each pair.1 pair.2

theorem partTold (id : NodeId) (n : Node) : Item.told Statement.shown? (partsOf id n) = [] := by
  have params : ∀ ps, Item.told Statement.shown? (indexed (paramItems id) ps) = [] :=
    toldEach (paramItems id) (fun p _ => by cases p <;> rfl)
  cases n with
  | record r =>
    simp only [partsOf, Item.toldAppend, params, toldEach (parentItems id) (fun _ _ => rfl),
      toldEach (memberItems id) (fun _ _ => rfl), toldEach (functionItems id) (fun _ _ => rfl),
      List.append_nil]
  | container c => exact params c.params
  | _ => rfl

theorem traverses : style.Traverses Statement.shown? drawn where
  first := fun _ _ id n => ⟨_, rfl, congrArg (id :: ·) (partTold id n), partNodes id n⟩
  again := fun _ _ _ => rfl

def arguments : Node → List TemplateParam
  | .record r => r.params
  | .container c => c.params
  | _ => []

theorem argumentCases {ps : List TemplateParam} {id : NodeId}
    (member : id ∈ ps.filterMap TemplateParam.type?) :
    id ∈ ps.filterMap drawn? ∨ ∃ text, .value id text ∈ ps := by
  obtain ⟨p, held, same⟩ := List.mem_filterMap.mp member
  cases p with
  | type ty qualifiers => exact .inl (List.mem_filterMap.mpr ⟨_, held, same⟩)
  | value ty text =>
    cases same
    exact .inr ⟨text, held⟩
  | template name => contradiction

theorem childCases {n : Node} {id : NodeId} (child : id ∈ n.children) :
    id ∈ drawn n ∨ ∃ text, .value id text ∈ arguments n := by
  cases n with
  | record r =>
    rcases List.mem_append.mp child with front | members
    · rcases List.mem_append.mp front with params | parents
      · exact (argumentCases params).imp_left
          (fun drawn => List.mem_append_left _ (List.mem_append_left _ drawn))
      · exact .inl (List.mem_append_left _ (List.mem_append_right _ parents))
    · exact .inl (List.mem_append_right _ members)
  | container c => exact argumentCases child
  | _ => exact .inl child

theorem shownReached {g : Graph} {starts : List NodeId} {id : NodeId}
    (shown : g.Reached drawn starts id) : g.Reached Node.children starts id := by
  obtain ⟨start, top, path⟩ := shown
  refine ⟨start, top, Relation.ReflTransGen.mono (fun a b leads => ?_) _ _ path⟩
  obtain ⟨n, found, child⟩ := leads
  exact ⟨n, found, drawnChild child⟩

theorem reachedShown {g : Graph} {starts : List NodeId}
    (values : ∀ id n ty text, g.Reached drawn starts id → g.node? id = some n →
      .value ty text ∈ arguments n → g.Reached drawn starts ty)
    {id : NodeId} (reached : g.Reached Node.children starts id) : g.Reached drawn starts id := by
  obtain ⟨start, top, path⟩ := reached
  induction path with
  | refl => exact ⟨start, top, .refl⟩
  | tail _ leads ih =>
    obtain ⟨n, found, child⟩ := leads
    rcases childCases child with drawn | ⟨text, value⟩
    · obtain ⟨first, held, before⟩ := ih
      exact ⟨first, held, before.tail ⟨n, found, drawn⟩⟩
    · exact values _ n _ text ih found value

theorem verticesReached {g : Graph} (closed : g.Closed) :
    ∃ lines, statements g g.roots = .ok lines ∧
      render g = .ok ("digraph \x7b\n" ++ String.join (lines.map Statement.text) ++ "\x7d\n") ∧
      (∀ id, (g.Reached drawn g.roots id →
          lines.countP (Statement.declares (Vertex.node id).name) = 1 ∧
            g.Reached Node.children g.roots id) ∧
        (¬ g.Reached drawn g.roots id →
          lines.countP (Statement.declares (Vertex.node id).name) = 0)) ∧
      ((∀ id n ty text, g.Reached drawn g.roots id → g.node? id = some n →
          .value ty text ∈ arguments n → g.Reached drawn g.roots ty) →
        ∀ id, g.Reached drawn g.roots id ↔ g.Reached Node.children g.roots id) := by
  obtain ⟨lines, listed⟩ := Graph.listEnds closed stays closed.roots
  obtain ⟨distinct, told⟩ := Graph.listTells traverses listed
  refine ⟨lines, listed, bindAnswers.mpr ⟨lines, listed, rfl⟩, fun id => ⟨fun shown => ?_, ?_⟩, ?_⟩
  · rw [countDeclared, distinct.count, if_pos ((told id).mpr shown)]
    exact ⟨rfl, shownReached shown⟩
  · intro absent
    rw [countDeclared, distinct.count, if_neg (fun member => absent ((told id).mp member))]
  · exact fun values id => ⟨shownReached, reachedShown values⟩

def ringGraph : Graph where
  nodes := #[.record ⟨.structKind, "Ring", "Ring<const int, 4>", 8, 8, false,
      [.type ⟨1⟩ .const, .value ⟨1⟩ "4"], [], [⟨"next", ⟨2⟩, 0, 0⟩], []⟩,
    .primitive .int32, .pointer ⟨0⟩, .primitive .bool]
  roots := [⟨2⟩, ⟨0⟩]
  slots := (Graph.empty.slots.setIfInBounds (Primitive.index .int32) (some ⟨1⟩)).setIfInBounds
    (Primitive.index .bool) (some ⟨3⟩)

theorem ringVertices : ∃ lines, statements ringGraph ringGraph.roots = .ok lines ∧
    lines.countP (Statement.declares "n1") = 1 := by
  have closed : ringGraph.Closed := Graph.wholeClosed rfl
  obtain ⟨lines, listed, _, each, _⟩ := verticesReached closed
  have shown : ringGraph.Reached drawn ringGraph.roots ⟨1⟩ :=
    ⟨⟨0⟩, by decide, .single ⟨_, rfl, by decide⟩⟩
  exact ⟨lines, listed, ((each ⟨1⟩).1 shown).1⟩

/- The record of a template that has no use for the type of its argument but as that. -/
def tagGraph : Graph where
  nodes := #[.record ⟨.structKind, "Tag", "Tag<3>", 1, 1, false, [.value ⟨1⟩ "3"], [], [], []⟩,
    .primitive .int32]
  roots := [⟨0⟩]
  slots := Graph.empty.slots.setIfInBounds (Primitive.index .int32) (some ⟨1⟩)

def tagLines : List Statement :=
  [.vertex (.node ⟨0⟩) "Struct: Tag (size: 1, align: 1)", .edge (.node ⟨0⟩) (.param ⟨0⟩ 0),
   .vertex (.param ⟨0⟩ 0) "Param Value: 3"]

/- So a child of a root can be without a vertex. -/
theorem valueTypeUnshown : tagGraph.Closed ∧ tagGraph.Reached Node.children tagGraph.roots ⟨1⟩ ∧
    statements tagGraph tagGraph.roots = .ok tagLines ∧
      tagLines.countP (Statement.declares (Vertex.node ⟨1⟩).name) = 0 := by
  refine ⟨Graph.wholeClosed rfl, ⟨⟨0⟩, by decide, .single ⟨_, rfl, by decide⟩⟩, ?_, by decide⟩
  rw [statements, Graph.list, tagGraph, List.map_singleton, Graph.walkNew rfl rfl rfl]
  exact Graph.walkLines tagLines

end ObjectLayout.Diagram
