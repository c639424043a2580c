import ObjectLayout.Proofs.Graph.Walking

/-! A printer of diagrams that keeps one place for the owner of the argument at hand. The nodes that are
printed below an argument write to that place as well and clear it in the end. It prints the same
statements: each argument finds its own owner there, since it is put there right before. -/
namespace ObjectLayout.Diagram

inductive Move where
  | line (statement : Statement)
  | node (id : NodeId)
  | own (slot : Option (NodeId × Nat))
  | param (p : TemplateParam)

def edgeMoves (source : Vertex) (id : NodeId) : List Move := [.line (.edge source (.node id)), .node id]

def partMoves (owner : NodeId) (part : Vertex) (label : String) : List Move :=
  [.line (.edge (.node owner) part), .line (.vertex part label)]

def paramMoves (owner : NodeId) (index : Nat) (p : TemplateParam) : List Move :=
  partMoves owner (.param owner index) (paramLabel p) ++
    match p with
    | .type ty _ => edgeMoves (.param owner index) ty
    | .value _ _ | .template _ => []

def paramsMoves (owner : NodeId) (ps : List TemplateParam) : List Move :=
  ps.zipIdx.flatMap (fun (p, index) => [.own (some (owner, index)), .param p]) ++ [.own none]

def indexedMoves {α : Type} (moves : α → Nat → List Move) (xs : List α) : List Move :=
  xs.zipIdx.flatMap (fun (x, index) => moves x index)

def moves (id : NodeId) : Node → List Move
  | .record r =>
      paramsMoves id r.params ++
        indexedMoves (fun p index =>
          partMoves id (.parent id index) p.title ++ edgeMoves (.parent id index) p.ty) r.parents ++
        indexedMoves (fun m index =>
          partMoves id (.member id index) m.title ++ edgeMoves (.member id index) m.ty) r.members ++
        indexedMoves (fun f index => partMoves id (.function id index) f.title) r.functions
  | .container c => paramsMoves id c.params
  | .array child _ | .typedef _ child | .pointer child | .reference child
  | .allocator child _ _ => edgeMoves (.node id) child
  | .primitive _ | .enum _ | .incomplete _ | .dummy _ _ => []

def Move.weight : Move → Nat
  | .param _ => 5
  | .line _ | .node _ | .own _ => 1

def weight : List Move → Nat
  | [] => 0
  | move :: rest => move.weight + weight rest

theorem weightParam (owner : NodeId) (index : Nat) (p : TemplateParam) (rest : List Move) :
    weight (paramMoves owner index p ++ rest) < weight (.param p :: rest) := by
  cases p <;> simp [paramMoves, partMoves, edgeMoves, weight, Move.weight] <;> omega

theorem weightRest (move : Move) (rest : List Move) : weight rest < weight (move :: rest) := by
  cases move <;> simp [weight, Move.weight]

def printed (g : Graph) (slot : Option (NodeId × Nat)) (met : List NodeId) :
    List Move → Except Fault (List Statement)
  | [] => .ok []
  | .line statement :: rest => do
      let lines ← printed g slot met rest
      .ok (statement :: lines)
  | .own other :: rest => printed g other met rest
  | .param p :: rest =>
      match slot with
      | none => printed g none met rest
      | some (owner, index) =>
          printed g (some (owner, index)) met (paramMoves owner index p ++ rest)
  | .node id :: rest =>
      match fresh : met.idxOf? id with
      | some _ => printed g slot met rest
      | none =>
          match found : g.node? id with
          | none => .error (.missingNode id)
          | some n =>
              have : g.unmet (met ++ [id]) < g.unmet met := Graph.unmetLess found fresh
              printed g slot (met ++ [id]) (.line (.vertex (.node id) n.title) :: moves id n ++ rest)
termination_by todo => (g.unmet met, weight todo)
decreasing_by
  all_goals first
    | exact .left _ _ ‹_›
    | exact .right _ (weightRest ..)
    | exact .right _ (weightParam ..)

def owned (slot : Option (NodeId × Nat)) : List Move → List (Item Statement)
  | [] => []
  | .line statement :: rest => .line statement :: owned slot rest
  | .node id :: rest => .node 0 id :: owned slot rest
  | .own other :: rest => owned other rest
  | .param p :: rest =>
      (match slot with
        | none => []
        | some (owner, index) => paramItems owner p index) ++ owned slot rest

/- What is left to do behind a node or an argument does not depend on what the slot has come to hold. -/
def Free (todo : List Move) : Prop := ∀ a b, owned a todo = owned b todo

def Steady : List Move → Prop
  | [] => True
  | .node _ :: rest | .param _ :: rest => Free rest ∧ Steady rest
  | .line _ :: rest | .own _ :: rest => Steady rest

structure Lists (todo : List Move) (items : List (Item Statement)) : Prop where
  free : ∀ rest, Free rest → Free (todo ++ rest)
  steady : ∀ rest, Free rest → Steady rest → Steady (todo ++ rest)
  listed : ∀ rest, Free rest → ∀ slot, owned slot (todo ++ rest) = items ++ owned slot rest

theorem listsNothing : Lists [] [] := ⟨fun _ free => free, fun _ _ steady => steady, fun _ _ _ => rfl⟩

theorem listsAppend {xs ys : List Move} {first second : List (Item Statement)} (front : Lists xs first)
    (back : Lists ys second) : Lists (xs ++ ys) (first ++ second) where
  free rest free := by
    rw [List.append_assoc]
    exact front.free _ (back.free rest free)
  steady rest free steady := by
    rw [List.append_assoc]
    exact front.steady _ (back.free rest free) (back.steady rest free steady)
  listed rest free slot := by
    rw [List.append_assoc, front.listed _ (back.free rest free), back.listed rest free,
      List.append_assoc]

theorem listsEach {β : Type} {todo : β → List Move} {items : β → List (Item Statement)}
    (each : ∀ x, Lists (todo x) (items x)) (xs : List β) : Lists (xs.flatMap todo) (xs.flatMap items) := by
  induction xs with
  | nil => exact listsNothing
  | cons x rest ih => exact listsAppend (each x) ih

theorem listsLine (statement : Statement) : Lists [.line statement] [.line statement] :=
  ⟨fun _ free a b => congrArg (_ :: ·) (free a b), fun _ _ steady => steady, fun _ _ _ => rfl⟩

theorem listsNode (id : NodeId) : Lists [.node id] [.node 0 id] :=
  ⟨fun _ free a b => congrArg (_ :: ·) (free a b), fun _ free steady => ⟨free, steady⟩, fun _ _ _ => rfl⟩

theorem listsParam (owner : NodeId) (index : Nat) (p : TemplateParam) :
    Lists [.own (some (owner, index)), .param p] (paramItems owner p index) :=
  ⟨fun _ _ _ _ => rfl, fun _ free steady => ⟨free, steady⟩,
    fun _ free _ => congrArg (paramItems owner p index ++ ·) (free _ _)⟩

theorem listsClear : Lists [.own none] [] :=
  ⟨fun _ _ _ _ => rfl, fun _ _ steady => steady, fun _ free _ => free _ _⟩

theorem listsEdge (source : Vertex) (id : NodeId) : Lists (edgeMoves source id) (edgeTo source id) :=
  listsAppend (listsLine _) (listsNode id)

theorem listsPart (owner : NodeId) (part : Vertex) (label : String) :
    Lists (partMoves owner part label) (partItems owner part label) :=
  listsAppend (listsLine _) (listsLine _)

theorem listsParams (owner : NodeId) (ps : List TemplateParam) :
    Lists (paramsMoves owner ps) (indexed (paramItems owner) ps) := by
  have each := listsEach (fun p : TemplateParam × Nat => listsParam owner p.2 p.1) ps.zipIdx
  have whole := listsAppend each listsClear
  rwa [List.append_nil] at whole

theorem listsMoves (id : NodeId) (n : Node) : Lists (moves id n) (partsOf id n) := by
  cases n with
  | record r =>
    have parents := listsEach (fun p : Parent × Nat =>
      listsAppend (listsPart id (.parent id p.2) p.1.title) (listsEdge (.parent id p.2) p.1.ty))
      r.parents.zipIdx
    have members := listsEach (fun m : Member × Nat =>
      listsAppend (listsPart id (.member id m.2) m.1.title) (listsEdge (.member id m.2) m.1.ty))
      r.members.zipIdx
    have functions := listsEach (fun f : Function × Nat => listsPart id (.function id f.2) f.1.title)
      r.functions.zipIdx
    exact listsAppend (listsAppend (listsAppend (listsParams id r.params) parents) members) functions
  | container c => exact listsParams id c.params
  | array | typedef | pointer | reference | allocator => exact listsEdge _ _
  | _ => exact listsNothing

theorem listsOwned (owner : NodeId) (index : Nat) (p : TemplateParam) :
    Lists (paramMoves owner index p) (paramItems owner p index) := by
  cases p with
  | type ty qualifiers => exact listsAppend (listsPart _ _ _) (listsEdge _ ty)
  | value | template => exact listsAppend (listsPart _ _ _) listsNothing

theorem printedWalk (g : Graph) (slot : Option (NodeId × Nat)) (met : List NodeId) (todo : List Move)
    (steady : Steady todo) : printed g slot met todo = g.walk style met (owned slot todo) := by
  fun_induction printed g slot met todo with
  | case1 => rw [owned, Graph.walk]
  | case2 slot met statement rest ih => rw [owned, Graph.walk, ih steady]
  | case3 slot met other rest ih => exact ih steady
  | case4 met p rest ih => exact ih steady.2
  | case5 met p rest owner index ih =>
    have lists := listsOwned owner index p
    rw [ih (lists.steady rest steady.1 steady.2), lists.listed rest steady.1]
    rfl
  | case6 slot met id rest number old ih =>
    rw [ih steady.2, owned, Graph.walkOld old]
    cases g.walk style met (owned slot rest) <;> rfl
  | case7 slot met id rest fresh missing => rw [owned, Graph.walkMissing fresh missing]
  | case8 slot met id rest fresh n found less ih =>
    have lists := listsAppend (listsLine (.vertex (.node id) n.title)) (listsMoves id n)
    have listed := lists.listed rest steady.1 slot
    rw [owned, Graph.walkNew fresh found rfl]
    exact (ih (lists.steady rest steady.1 steady.2)).trans (congrArg _ listed)

theorem printedStatements (g : Graph) (slot : Option (NodeId × Nat)) (ids : List NodeId) :
    printed g slot [] (ids.map .node) = statements g ids := by
  have roots := listsEach listsNode ids
  rw [← List.map_eq_flatMap, ← List.map_eq_flatMap] at roots
  have listed := roots.listed [] (fun _ _ => rfl) slot
  have steady := roots.steady [] (fun _ _ => rfl) trivial
  simp only [List.append_nil, owned] at listed steady
  rw [printedWalk g slot [] _ steady, listed]
  rfl

end ObjectLayout.Diagram
