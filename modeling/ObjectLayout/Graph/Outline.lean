import ObjectLayout.Graph.Title
import ObjectLayout.Graph.Walk

/-! A graph as an indented outline. A node is numbered where it is first shown, with its title and
its parts below it; elsewhere only the number is shown, which is how cycles come out. Primitives
carry no number and are shown in full every time. -/
namespace ObjectLayout.Outline

inductive Content where
  | header (number : Nat) (id : NodeId) (title : String)
  | again (number : Nat) (id : NodeId)
  | primitive (kind : Primitive)
  | note (text : String)
  deriving DecidableEq, Repr

structure Row where
  level : Nat
  content : Content
  deriving DecidableEq, Repr

def Content.text : Content → String
  | header number _ title => s!"[{number}] {title}"
  | again number _ => s!"[{number}]"
  | primitive kind => (Node.primitive kind).title
  | note text => text

def Row.text (r : Row) : String :=
  String.ofList (List.replicate (2 * r.level) ' ') ++ r.content.text ++ "\n"

def note (level : Nat) (text : String) : Item Row := .line ⟨level, .note text⟩

def paramItems (level : Nat) : TemplateParam → List (Item Row)
  | .type ty qualifiers =>
      note level "Param" ::
        ((if qualifiers.isConst then [note (level + 1) "Qualifiers: const"] else []) ++
          [.node (level + 1) ty])
  | .value ty text => [note level "Param", note (level + 1) s!"Value: {text}", .node (level + 1) ty]
  | .template name => [note level "Param", note (level + 1) s!"Template: {name}"]

def partItems (level : Nat) : Node → List (Item Row)
  | .record r =>
      r.params.flatMap (paramItems level) ++
        r.parents.flatMap (fun p => [note level p.title, .node (level + 1) p.ty]) ++
        r.members.flatMap (fun m => [note level m.title, .node (level + 1) m.ty]) ++
        r.functions.map (fun f => note level f.title)
  | .container c => c.params.flatMap (paramItems level)
  | .enum e =>
      e.enumerators.entries.map (fun (value, name) =>
        note level s!"Enumerator: {name} = {value.toInt}")
  | .array id _ | .typedef _ id | .pointer id | .reference id | .allocator id _ _ =>
      [.node level id]
  | .primitive _ | .incomplete _ | .dummy _ _ => []

def style : Style Row where
  first level number id n :=
    match n with
    | .primitive kind => .leaf [⟨level, .primitive kind⟩]
    | n => .branch (.line ⟨level, .header number id n.title⟩ :: partItems (level + 1) n)
  again level number id := [⟨level, .again number id⟩]

def rows (g : Graph) (ids : List NodeId) : Except Fault (List Row) := g.list style ids

def print (g : Graph) (ids : List NodeId) : Except Fault String := do
  let rows ← rows g ids
  .ok (String.join (rows.map Row.text))

def render (g : Graph) : Except Fault String := print g g.roots

end ObjectLayout.Outline
