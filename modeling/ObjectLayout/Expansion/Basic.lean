import ObjectLayout.Table.Query
import ObjectLayout.Graph.Basic
import ObjectLayout.Expansion.Memo
import ObjectLayout.Expansion.Options

/-! Expanding a type of a table into nodes of a graph. Every type gets one node, which is found
again through the memo; a record is entered there before its parts are expanded, so that parts can
refer back to it. Sugar gets no node. A type without a definition becomes an incomplete node; a type
that no layout exists for stops the expansion. -/
namespace ObjectLayout

inductive Unsupported where
  | typeClass (name : String)
  | builtin (kind : Builtin)
  | argument (kind : ArgumentKind)
  | templateName (kind : TemplateNameKind)
  deriving DecidableEq, Repr

def Unsupported.message : Unsupported → String
  | .typeClass name => s!"unsupported type class `{name}`"
  | .builtin kind => s!"unsupported builtin type `{kind.name}`"
  | .argument kind => s!"unsupported template argument kind: {kind.name}"
  | .templateName kind => s!"unsupported template name kind: {kind.name}"

structure Session where
  graph : Graph
  memo : Memo
  depth : Nat
  deriving DecidableEq

namespace Expansion

inductive Stop where
  | unsupported (cause : Unsupported)
  | fault (cause : Fault)
  deriving DecidableEq, Repr

/- A step keeps the state it has reached also when it stops. -/
abbrev Step := EStateM Stop Session

def ask {α : Type} (answer : Except Fault α) : Step α :=
  match answer with
  | .ok a => pure a
  | .error f => throw (.fault f)

def refuse {α : Type} (cause : Unsupported) : Step α := throw (.unsupported cause)

def deeper {α : Type} (x : Step α) : Step α := fun s =>
  match x { s with depth := s.depth + 1 } with
  | .ok a s => .ok a { s with depth := s.depth - 1 }
  | .error e s => .error e { s with depth := s.depth - 1 }

def allocate (n : Node) : Step NodeId := fun s =>
  let (id, g) := s.graph.push n
  .ok id { s with graph := g }

def primitive (kind : Primitive) : Step NodeId := fun s =>
  let (id, g) := s.graph.addPrimitive kind
  .ok id { s with graph := g }

def register (ty : TypeId) (id : NodeId) : Step NodeId := fun s =>
  .ok id { s with memo := s.memo.insert ty id }

/- Gives a type whose parts are built its node. The parts may have led back to the type and given
it one already; then that one is kept. -/
def registerNew (ty : TypeId) (n : Node) : Step NodeId := do
  match (← get).memo.find? ty with
  | some id => pure id
  | none => do
      let id ← allocate n
      register ty id

def expandParam (visit : TypeId → Step NodeId) : TemplateArgument → Step TemplateParam
  | .type ty isConst => do
      let id ← visit ty
      pure (.type id (.ofConst isConst))
  | .integral ty value => do
      let id ← visit ty
      pure (.value id value)
  | .template (.template name) => pure (.template name)
  | .template (.indirect kind) => refuse (.templateName kind)
  | .unmodelled kind => refuse (.argument kind)

def expandParent (visit : TypeId → Step NodeId) (b : Base) : Step Parent := do
  let id ← visit b.ty
  pure ⟨id, b.bitOffset⟩

def expandMember (visit : TypeId → Step NodeId) (f : Field) : Step Member := do
  let id ← visit f.ty
  pure ⟨f.name, id, f.bitOffset, f.bitWidth.getD 0⟩

/- Members in the order of their offsets; members of one offset, as in a union, stay in the order
of declaration. -/
def layoutOrder (members : List Member) : List Member :=
  members.mergeSort (fun a b => a.bitOffset ≤ b.bitOffset)

def fill (id : NodeId) (f : Record → Record) : Step Unit := fun s =>
  match s.graph.modifyRecord id f with
  | some g => .ok () { s with graph := g }
  | none => .ok () s

def expandRecord (t : Table) (visit : TypeId → Step NodeId) (ty : TypeId) (decl : DeclId) :
    Step NodeId := do
  let info ← ask (t.recordInfo decl)
  let size ← ask (t.sizeInBits ty)
  let align ← ask (t.alignInBits ty)
  let empty : Record :=
    ⟨info.kind, info.name, info.qualifiedName, size / 8, align / 8, info.isDynamic, [], [], [], []⟩
  let id ← allocate (.record empty)
  let id ← register ty id
  let args ← ask (t.templateArgs decl)
  let params ← (args.getD []).mapM (expandParam visit)
  let bases ← ask (t.bases decl)
  let parents ← bases.mapM (expandParent visit)
  let fields ← ask (t.fields decl)
  let members ← fields.mapM (expandMember visit)
  let methods ← ask (t.methods decl)
  fill id (fun r =>
    { r with
      params := params
      parents := parents
      members := layoutOrder members
      functions := methods.map (fun m => ⟨m.name, m.isVirtual⟩) })
  pure id

def expandEnum (t : Table) (o : Options) (ty : TypeId) (decl : DeclId) : Step NodeId := do
  let declared ← if o.readEnumerators then ask (t.enumerators decl) else pure []
  let name ← ask (t.enumName decl)
  let size ← ask (t.sizeInBits ty)
  let id ← allocate (.enum ⟨name, size / 8, .ofDeclared declared⟩)
  register ty id

/- A pointer that is not followed is only an address. It is shared and not entered for the type,
which may still be asked for itself. -/
def expandPointer (o : Options) (visit : TypeId → Step NodeId) (ty pointee : TypeId) :
    Step NodeId := do
  if o.follows (← get).depth then
    let id ← visit pointee
    registerNew ty (.pointer id)
  else primitive .stubbedPointer

def expandReference (o : Options) (visit : TypeId → Step NodeId) (ty pointee : TypeId) :
    Step NodeId := do
  if o.follows (← get).depth then
    let id ← visit pointee
    match ← ask ((← get).graph.node id) with
    | .incomplete _ => registerNew ty (.pointer id)
    | _ => registerNew ty (.reference id)
  else primitive .stubbedPointer

def expandType (t : Table) (o : Options) (visit : TypeId → Step NodeId) (ty : TypeId)
    (type : TypeClass) : Step NodeId := do
  if ← ask (t.isComplete ty) then
    match type with
    | .builtin kind =>
        match kind.primitive? o.model with
        | some p => do
            let id ← primitive p
            register ty id
        | none => refuse (.builtin kind)
    | .record decl => expandRecord t visit ty decl
    | .enum decl => expandEnum t o ty decl
    | .pointer pointee => expandPointer o visit ty pointee
    | .reference pointee => expandReference o visit ty pointee
    | .array element length => do
        let id ← visit element
        registerNew ty (.array id length)
    | .synonym _ name target => do
        let id ← visit target
        registerNew ty (.typedef name id)
    | .sugar _ target => visit target
    | .dependentSpecialization | .unmodelled _ => refuse (.typeClass type.name)
  else do
    let name ← ask (t.displayName ty)
    let id ← allocate (.incomplete s!"incomplete type `{name}`")
    register ty id

def expandWith (t : Table) (o : Options) (visit : TypeId → Step NodeId) (ty : TypeId) :
    Step NodeId := do
  match (← get).memo.find? ty with
  | some id => pure id
  | none => do
      let e ← ask (t.entry ty)
      match e.type.sugarTarget with
      | some inner => visit inner
      | none => deeper (expandType t o visit ty e.type)

def expand (t : Table) (o : Options) : Nat → TypeId → Step NodeId
  | 0, _ => throw (.fault .endless)
  | fuel + 1, ty => expandWith t o (expand t o fuel) ty

/- Between two records that are new on the way, wrappers lead to earlier types only; so the way is
no longer than the table, once for each of its types. -/
def fuel (t : Table) : Nat := (t.types.size + 1) * (t.types.size + 2)

end Expansion
end ObjectLayout
