import ObjectLayout.Graph.Basic
import ObjectLayout.Storage.Codec

/-! A finished graph as it is kept for later, with the names that its types were asked for by. Data
that is read back is checked: it has to be of this version of the format, and every handle in it
has to name a node. -/
namespace ObjectLayout

structure NamedNode where
  name : String
  node : NodeId
  deriving DecidableEq, Repr

structure Archive where
  roots : List NamedNode
  graph : Graph
  deriving DecidableEq

inductive ArchiveError where
  | unreadable (cause : ReadError)
  | version (found : Nat)
  | dangling (id : NodeId)
  deriving DecidableEq, Repr

namespace Archive

def formatVersion : Nat := 1

end Archive

def ArchiveError.message : ArchiveError → String
  | .unreadable cause => s!"failed to decode type graph: {cause.message}"
  | .version found =>
      s!"type graph cache version {found} does not match {Archive.formatVersion}"
  | .dangling id => s!"type graph cache refers to missing {id.text}"

namespace Codec

def nodeId : Codec NodeId := word32.map NodeId.mk NodeId.raw

def primitiveKind : Codec Primitive := oneOf Primitive.all

def recordKind : Codec RecordKind := oneOf [.structKind, .classKind, .unionKind]

def qualifiers : Codec Qualifiers := byte.map Qualifiers.mk Qualifiers.bits

def param : Codec TemplateParam where
  write
    | .type ty q => word32.write 0 ++ (nodeId.pair qualifiers).write (ty, q)
    | .value ty value => word32.write 1 ++ (nodeId.pair text).write (ty, value)
    | .template name => word32.write 2 ++ text.write name
  read := do
    match ← word32.read with
    | 0 => do
        let (ty, q) ← (nodeId.pair qualifiers).read
        pure (.type ty q)
    | 1 => do
        let (ty, value) ← (nodeId.pair text).read
        pure (.value ty value)
    | 2 => do
        let name ← text.read
        pure (.template name)
    | _ => refuse .invalidAlternative

def parent : Codec Parent :=
  (nodeId.pair word64).map (fun (ty, offset) => ⟨ty, offset⟩) (fun p => (p.ty, p.bitOffset))

def member : Codec Member :=
  (text.pair (nodeId.pair (word64.pair word64))).map
    (fun (name, ty, offset, size) => ⟨name, ty, offset, size⟩)
    (fun m => (m.name, m.ty, m.bitOffset, m.bitSize))

def function : Codec Function :=
  (text.pair bool).map (fun (name, isVirtual) => ⟨name, isVirtual⟩)
    (fun f => (f.name, f.isVirtual))

def record : Codec Record :=
  (recordKind.pair (text.pair (text.pair (word64.pair (word64.pair (bool.pair
    ((list param).pair ((list parent).pair ((list member).pair (list function)))))))))).map
    (fun (kind, name, qualifiedName, size, align, isDynamic, params, parents, members, functions) =>
      ⟨kind, name, qualifiedName, size, align, isDynamic, params, parents, members, functions⟩)
    (fun r => (r.kind, r.name, r.qualifiedName, r.size, r.align, r.isDynamic, r.params, r.parents,
      r.members, r.functions))

def container : Codec Container :=
  (text.pair (word64.pair (word64.pair (list param)))).map
    (fun (name, size, align, params) => ⟨name, size, align, params⟩)
    (fun c => (c.name, c.size, c.align, c.params))

/- Written in ascending order and read in any order, where the last name of a value counts. -/
def enumerators : Codec EnumeratorMap :=
  (list (int64.pair text)).map
    (fun entries => entries.foldl (fun m (value, name) => m.insert value name) .empty)
    EnumeratorMap.entries

def enum : Codec EnumNode :=
  (text.pair (word64.pair enumerators)).map (fun (name, size, values) => ⟨name, size, values⟩)
    (fun e => (e.name, e.size, e.enumerators))

def nodePayload : Node → Bytes
  | .primitive kind => primitiveKind.write kind
  | .record r => record.write r
  | .container c => container.write c
  | .enum e => enum.write e
  | .array element length => (nodeId.pair word64).write (element, length)
  | .typedef name underlying => (text.pair nodeId).write (name, underlying)
  | .pointer pointee => nodeId.write pointee
  | .reference pointee => nodeId.write pointee
  | .incomplete label => text.write label
  | .dummy size align => (word64.pair word64).write (size, align)
  | .allocator target size align => (nodeId.pair (word64.pair word64)).write (target, size, align)

def readPayload : NodeKind → Read Node
  | .primitive => do
      let kind ← primitiveKind.read
      pure (.primitive kind)
  | .record => do
      let r ← record.read
      pure (.record r)
  | .container => do
      let c ← container.read
      pure (.container c)
  | .enum => do
      let e ← enum.read
      pure (.enum e)
  | .array => do
      let (element, length) ← (nodeId.pair word64).read
      pure (.array element length)
  | .typedef => do
      let (name, underlying) ← (text.pair nodeId).read
      pure (.typedef name underlying)
  | .pointer => do
      let pointee ← nodeId.read
      pure (.pointer pointee)
  | .reference => do
      let pointee ← nodeId.read
      pure (.reference pointee)
  | .incomplete => do
      let label ← text.read
      pure (.incomplete label)
  | .dummy => do
      let (size, align) ← (word64.pair word64).read
      pure (.dummy size align)
  | .allocator => do
      let (target, size, align) ← (nodeId.pair (word64.pair word64)).read
      pure (.allocator target size align)

def nodeKind : Codec NodeKind := oneOf NodeKind.all

def node : Codec Node where
  write n := nodeKind.write n.kind ++ nodePayload n
  read := do
    let kind ← nodeKind.read
    readPayload kind

def graph : Codec Graph :=
  ((list node).pair ((list nodeId).pair (vector (option nodeId) Primitive.count))).map
    (fun (nodes, roots, slots) => ⟨nodes.toArray, roots, slots⟩)
    (fun g => (g.nodes.toList, g.roots, g.slots))

def namedNode : Codec NamedNode :=
  (text.pair nodeId).map (fun (name, node) => ⟨name, node⟩) (fun r => (r.name, r.node))

def archive : Codec Archive :=
  ((list namedNode).pair graph).map (fun (roots, graph) => ⟨roots, graph⟩)
    (fun a => (a.roots, a.graph))

end Codec

namespace Archive

def root? (a : Archive) (name : String) : Option NodeId :=
  (a.roots.find? (fun root => root.name = name)).map NamedNode.node

def firstDangling (a : Archive) : Option NodeId :=
  (a.roots.map NamedNode.node ++ a.graph.handles).find? a.graph.isDangling

def store (a : Archive) : Bytes := Codec.word32.write formatVersion ++ Codec.archive.write a

def load (data : Bytes) : Except ArchiveError Archive :=
  match Codec.word32.read data with
  | .error e => .error (.unreadable e)
  | .ok (found, rest) =>
      if found ≠ formatVersion then .error (.version found)
      else
        match Codec.archive.read rest with
        | .error e => .error (.unreadable e)
        | .ok (a, _) =>
            match a.firstDangling with
            | some id => .error (.dangling id)
            | none => .ok a

end Archive
end ObjectLayout
