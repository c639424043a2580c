import ObjectLayout.Graph.Basic

/-! How a node is called in the language: a record by its qualified name, an array or a pointer by
what it is made of, a container with its arguments. -/
namespace ObjectLayout

def TemplateParam.spelled (name : NodeId → Except Fault String) :
    TemplateParam → Except Fault String
  | .type ty qualifiers => do
      let s ← name ty
      .ok (if qualifiers.isConst then "const " ++ s else s)
  | .value _ text => .ok text
  | .template text => .ok text

def Node.spelled (name : NodeId → Except Fault String) : Node → Except Fault String
  | .primitive kind => .ok kind.spelling
  | .record r => .ok (if r.qualifiedName.isEmpty then r.name else r.qualifiedName)
  | .container c =>
      if c.params.isEmpty then .ok c.name
      else do
        let args ← c.params.mapM (TemplateParam.spelled name)
        .ok (c.name ++ "<" ++ ", ".intercalate args ++ ">")
  | .enum e => .ok e.name
  | .typedef s _ => .ok s
  | .array element length => do
      let s ← name element
      .ok s!"{s}[{length.toNat}]"
  | .pointer pointee => do
      let s ← name pointee
      .ok (s ++ "*")
  | .reference pointee => do
      let s ← name pointee
      .ok (s ++ "&")
  | .incomplete label => .ok label
  | .dummy size align => .ok s!"DummySizedOperator<{size.toNat}, {align.toNat}>"
  | .allocator target size align => do
      let s ← name target
      .ok s!"DummyAllocator<{s}, {size.toNat}, {align.toNat}>"

namespace Graph

def nameWithin (g : Graph) : Nat → NodeId → Except Fault String
  | 0, _ => .error .endless
  | fuel + 1, id => do
      let n ← g.node id
      n.spelled (g.nameWithin fuel)

/- The name of a node. A name that is made of itself has no end; every other one is nested no
deeper than there are nodes. -/
def displayName (g : Graph) (id : NodeId) : Except Fault String :=
  g.nameWithin (g.nodes.size + 1) id

end Graph
end ObjectLayout
