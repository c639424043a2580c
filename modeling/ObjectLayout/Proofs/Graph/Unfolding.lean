import ObjectLayout.Proofs.Graph.Census

/-! An outline as the unfolding of a graph. What is shown is a forest with one tree for each root: a
node is unfolded below the line that numbers it, where it comes first in depth-first order, and nowhere
else. -/
namespace ObjectLayout.Outline

inductive Part where
  | child (id : NodeId)
  | note (text : String) (below : List Part)

mutual

def Part.items (level : Nat) : Part → List (Item Row)
  | .child id => [.node level id]
  | .note text below => Outline.note level text :: partsItems (level + 1) below

def partsItems (level : Nat) : List Part → List (Item Row)
  | [] => []
  | part :: rest => part.items level ++ partsItems level rest

end

mutual

def Part.shown : Part → List NodeId
  | .child id => [id]
  | .note _ below => partsShown below

def partsShown : List Part → List NodeId
  | [] => []
  | part :: rest => part.shown ++ partsShown rest

end

def paramPart : TemplateParam → Part
  | .type ty qualifiers =>
      .note "Param"
        ((if qualifiers.isConst then [.note "Qualifiers: const" []] else []) ++ [.child ty])
  | .value ty text => .note "Param" [.note s!"Value: {text}" [], .child ty]
  | .template name => .note "Param" [.note s!"Template: {name}" []]

def parts : Node → List Part
  | .record r =>
      r.params.map paramPart ++ r.parents.map (fun p => .note p.title [.child p.ty]) ++
        r.members.map (fun m => .note m.title [.child m.ty]) ++
        r.functions.map (fun f => .note f.title [])
  | .container c => c.params.map paramPart
  | .enum e =>
      e.enumerators.entries.map (fun (value, name) =>
        .note s!"Enumerator: {name} = {value.toInt}" [])
  | .array id _ | .typedef _ id | .pointer id | .reference id | .allocator id _ _ => [.child id]
  | .primitive _ | .incomplete _ | .dummy _ _ => []

mutual

theorem partShown (level : Nat) (part : Part) : Item.nodes (part.items level) = part.shown := by
  cases part with
  | child id => rfl
  | note text below => exact partsShownNodes (level + 1) below

theorem partsShownNodes (level : Nat) (ps : List Part) :
    Item.nodes (partsItems level ps) = partsShown ps := by
  cases ps with
  | nil => rfl
  | cons part rest =>
    rw [partsItems, Item.nodesAppend, partShown level part, partsShownNodes level rest, partsShown]

end

inductive Tree where
  | line (content : Content) (below : List Tree)

def Tree.content : Tree → Content
  | .line content _ => content

mutual

def Tree.rows (level : Nat) : Tree → List Row
  | .line content below => ⟨level, content⟩ :: forestRows (level + 1) below

def forestRows (level : Nat) : List Tree → List Row
  | [] => []
  | tree :: rest => tree.rows level ++ forestRows level rest

end

variable {g : Graph}

end ObjectLayout.Outline
