import ObjectLayout.Proofs.Graph.Walking

/-! A printer of outlines that keeps no levels but the one it is at, and goes one deeper or one higher on
the way. It prints the same lines: what it does for a node leaves it where it was, whatever is shown in
between. -/
namespace ObjectLayout.Outline

inductive Move where
  | text (content : Content)
  | node (id : NodeId)
  | deeper
  | higher
  | top

def childMoves (id : NodeId) : List Move := [.deeper, .node id, .higher]

def noteMove (text : String) : Move := .text (.note text)

def paramMoves (p : TemplateParam) : List Move :=
  [noteMove "Param", .deeper] ++
    (match p with
      | .type ty qualifiers =>
          (if qualifiers.isConst then [noteMove "Qualifiers: const"] else []) ++ [.node ty]
      | .value ty text => [noteMove s!"Value: {text}", .node ty]
      | .template name => [noteMove s!"Template: {name}"]) ++
    [.higher]

def paramsMoves (ps : List TemplateParam) : List Move :=
  .deeper :: ps.flatMap paramMoves ++ [.higher]

def moves : Node → List Move
  | .record r =>
      paramsMoves r.params ++ .deeper ::
        (r.parents.flatMap (fun p => noteMove p.title :: childMoves p.ty) ++
          (r.members.flatMap (fun m => noteMove m.title :: childMoves m.ty) ++
            (r.functions.map (fun f => noteMove f.title) ++ [.higher])))
  | .container c => paramsMoves c.params
  | .enum e =>
      .deeper :: (e.enumerators.entries.map (fun e =>
        noteMove s!"Enumerator: {e.2} = {e.1.toInt}") ++ [.higher])
  | .array id _ | .typedef _ id | .pointer id | .reference id | .allocator id _ _ => childMoves id
  | .primitive _ | .incomplete _ | .dummy _ _ => []

/- The depth is one for all that is printed, and so are the numbers that have been given. -/
def printed (g : Graph) (depth : Nat) (met : List NodeId) : List Move → Except Fault (List Row)
  | [] => .ok []
  | .text content :: rest => do
      let rows ← printed g depth met rest
      .ok (⟨depth, content⟩ :: rows)
  | .deeper :: rest => printed g (depth + 1) met rest
  | .higher :: rest => printed g (depth - 1) met rest
  | .top :: rest => printed g 0 met rest
  | .node id :: rest =>
      match fresh : met.idxOf? id with
      | some number => do
          let rows ← printed g depth met rest
          .ok (⟨depth, .again number id⟩ :: rows)
      | none =>
          match found : g.node? id with
          | none => .error (.missingNode id)
          | some (.primitive kind) => do
              let rows ← printed g depth met rest
              .ok (⟨depth, .primitive kind⟩ :: rows)
          | some n =>
              have : g.unmet (met ++ [id]) < g.unmet met := Graph.unmetLess found fresh
              printed g depth (met ++ [id]) (.text (.header met.length id n.title) :: moves n ++ rest)
termination_by rest => (g.unmet met, rest.length)

def leveled (depth : Nat) : List Move → List (Item Row)
  | [] => []
  | .text content :: rest => .line ⟨depth, content⟩ :: leveled depth rest
  | .node id :: rest => .node depth id :: leveled depth rest
  | .deeper :: rest => leveled (depth + 1) rest
  | .higher :: rest => leveled (depth - 1) rest
  | .top :: rest => leveled 0 rest

theorem leveledEach {α : Type} {depth : Nat} (todo : α → List Move) (items : α → List (Item Row))
    (each : ∀ x rest, leveled depth (todo x ++ rest) = items x ++ leveled depth rest) (xs : List α)
    (rest : List Move) :
    leveled depth (xs.flatMap todo ++ rest) = xs.flatMap items ++ leveled depth rest := by
  induction xs with
  | nil => rfl
  | cons x xs ih =>
    rw [List.flatMap_cons, List.append_assoc, each, ih, List.flatMap_cons, List.append_assoc]

theorem leveledNotes {α : Type} (depth : Nat) (title : α → String) (xs : List α) (rest : List Move) :
    leveled depth (xs.map (fun x => noteMove (title x)) ++ rest) =
      xs.map (fun x => note depth (title x)) ++ leveled depth rest := by
  rw [List.map_eq_flatMap, List.map_eq_flatMap]
  exact leveledEach _ _ (fun _ _ => rfl) xs rest

theorem leveledParam (depth : Nat) (p : TemplateParam) (rest : List Move) :
    leveled depth (paramMoves p ++ rest) = paramItems depth p ++ leveled depth rest := by
  cases p with
  | type ty qualifiers =>
    simp only [paramMoves, paramItems]
    split <;> rfl
  | value | template => rfl

theorem leveledParams (depth : Nat) (ps : List TemplateParam) (rest : List Move) :
    leveled depth (paramsMoves ps ++ rest) =
      ps.flatMap (paramItems (depth + 1)) ++ leveled depth rest := by
  rw [paramsMoves, List.cons_append, List.cons_append, List.append_assoc, leveled,
    leveledEach _ _ (leveledParam (depth + 1))]
  rfl

theorem leveledMoves (depth : Nat) (n : Node) (rest : List Move) :
    leveled depth (moves n ++ rest) = partItems (depth + 1) n ++ leveled depth rest := by
  cases n with
  | record r =>
    have parents := leveledEach (fun p : Parent => noteMove p.title :: childMoves p.ty)
      (fun p => [note (depth + 1) p.title, .node (depth + 2) p.ty]) (fun _ _ => rfl) r.parents
    have members := leveledEach (fun m : Member => noteMove m.title :: childMoves m.ty)
      (fun m => [note (depth + 1) m.title, .node (depth + 2) m.ty]) (fun _ _ => rfl) r.members
    have functions := leveledNotes (depth + 1) Function.title r.functions
    simp only [moves, partItems, List.append_assoc, List.cons_append, leveledParams, leveled, parents,
      members, functions]
    rfl
  | container c => exact leveledParams depth c.params rest
  | enum e =>
    have entries := leveledNotes (depth + 1) (fun e : Int64 × String =>
      s!"Enumerator: {e.2} = {e.1.toInt}") e.enumerators.entries
    simp only [moves, partItems, List.append_assoc, List.cons_append, leveled, entries]
    rfl
  | _ => rfl

theorem printedWalk (g : Graph) (depth : Nat) (met : List NodeId) (todo : List Move) :
    printed g depth met todo = g.walk style met (leveled depth todo) := by
  fun_induction printed g depth met todo with
  | case1 => rw [leveled, Graph.walk]
  | case2 depth met content rest ih => rw [leveled, Graph.walk, ih]
  | case3 depth met rest ih => exact ih
  | case4 depth met rest ih => exact ih
  | case5 depth met rest ih => exact ih
  | case6 depth met id rest number old ih =>
    rw [leveled, Graph.walkOld old, ih]
    rfl
  | case7 depth met id rest fresh missing => rw [leveled, Graph.walkMissing fresh missing]
  | case8 depth met id rest fresh kind found ih =>
    rw [leveled, Graph.walkFirst fresh found, ih]
    rfl
  | case9 depth met id rest fresh n other found less ih =>
    have plain : n.kind ≠ .primitive := by
      intro same
      cases n with
      | primitive kind => exact other kind rfl
      | _ => contradiction
    rw [ih, leveled, Graph.walkNew fresh found (firstBranch plain ..), List.cons_append, leveled,
      leveledMoves, List.cons_append]

end ObjectLayout.Outline
