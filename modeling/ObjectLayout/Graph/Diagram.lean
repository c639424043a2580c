import ObjectLayout.Graph.Title
import ObjectLayout.Graph.Walk

/-! A graph as a directed graph in the dot language. Every node is a vertex, and so is every
template argument, parent, member and function of a node, with an edge from its owner. -/
namespace ObjectLayout.Diagram

inductive Vertex where
  | node (id : NodeId)
  | param (owner : NodeId) (index : Nat)
  | parent (owner : NodeId) (index : Nat)
  | member (owner : NodeId) (index : Nat)
  | function (owner : NodeId) (index : Nat)
  deriving DecidableEq, Repr

def Vertex.name : Vertex → String
  | node id => s!"n{id.raw}"
  | param owner index => s!"n{owner.raw}_t{index}"
  | parent owner index => s!"n{owner.raw}_p{index}"
  | member owner index => s!"n{owner.raw}_m{index}"
  | function owner index => s!"n{owner.raw}_f{index}"

inductive Statement where
  | vertex (vertex : Vertex) (label : String)
  | edge (source target : Vertex)
  deriving DecidableEq, Repr

/- A backslash takes the next character of a label as it is, so a quote and a backslash need one
in front of them. -/
def escapeChar (c : Char) : List Char :=
  if c = '\\' ∨ c = '\x22' then ['\\', c] else [c]

def escape (label : String) : String := String.ofList (label.toList.flatMap escapeChar)

def Statement.text : Statement → String
  | vertex v label => s!"  {v.name} [label=\"{escape label}\"]\n"
  | edge source target => s!"  {source.name} -> {target.name}\n"

def vertex (v : Vertex) (label : String) : Item Statement := .line (.vertex v label)

def edge (source target : Vertex) : Item Statement := .line (.edge source target)

def edgeTo (source : Vertex) (id : NodeId) : List (Item Statement) :=
  [edge source (.node id), .node 0 id]

def partItems (owner : NodeId) (part : Vertex) (label : String) : List (Item Statement) :=
  [edge (.node owner) part, vertex part label]

def paramLabel (p : TemplateParam) : String :=
  let detail :=
    match p with
    | .type _ _ => ""
    | .value _ text => s!" Value: {text}"
    | .template name => s!" Template: {name}"
  "Param" ++ detail ++ (if p.qualifiers.isConst then " Qualifiers: const" else "")

def paramItems (owner : NodeId) (p : TemplateParam) (index : Nat) : List (Item Statement) :=
  let part := Vertex.param owner index
  partItems owner part (paramLabel p) ++
    match p with
    | .type ty _ => edgeTo part ty
    | .value _ _ | .template _ => []

def parentItems (owner : NodeId) (p : Parent) (index : Nat) : List (Item Statement) :=
  partItems owner (.parent owner index) p.title ++ edgeTo (.parent owner index) p.ty

def memberItems (owner : NodeId) (m : Member) (index : Nat) : List (Item Statement) :=
  partItems owner (.member owner index) m.title ++ edgeTo (.member owner index) m.ty

def functionItems (owner : NodeId) (f : Function) (index : Nat) : List (Item Statement) :=
  partItems owner (.function owner index) f.title

def indexed {α : Type} (items : α → Nat → List (Item Statement)) (xs : List α) :
    List (Item Statement) :=
  xs.zipIdx.flatMap (fun (x, index) => items x index)

def partsOf (id : NodeId) : Node → List (Item Statement)
  | .record r =>
      indexed (paramItems id) r.params ++ indexed (parentItems id) r.parents ++
        indexed (memberItems id) r.members ++ indexed (functionItems id) r.functions
  | .container c => indexed (paramItems id) c.params
  | .array child _ | .typedef _ child | .pointer child | .reference child
  | .allocator child _ _ => edgeTo (.node id) child
  | .primitive _ | .enum _ | .incomplete _ | .dummy _ _ => []

def style : Style Statement where
  first _ _ id n := .branch (vertex (.node id) n.title :: partsOf id n)
  again _ _ _ := []

def statements (g : Graph) (ids : List NodeId) : Except Fault (List Statement) := g.list style ids

def print (g : Graph) (ids : List NodeId) : Except Fault String := do
  let statements ← statements g ids
  .ok ("digraph \x7b\n" ++ String.join (statements.map Statement.text) ++ "\x7d\n")

def render (g : Graph) : Except Fault String := print g g.roots

end ObjectLayout.Diagram
