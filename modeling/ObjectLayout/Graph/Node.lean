import ObjectLayout.Primitive
import ObjectLayout.Table.Basic

/-! The nodes of a type graph. A node refers to its children by their handles; the graph owns
every node. -/
namespace ObjectLayout

/- The qualifiers of a type argument, one bit each. Only `const` has a meaning; other bits can come
from a stored graph and are kept. -/
structure Qualifiers where
  bits : UInt8
  deriving DecidableEq

namespace Qualifiers

def empty : Qualifiers := ⟨0⟩

def const : Qualifiers := ⟨1⟩

def ofConst (isConst : Bool) : Qualifiers := if isConst then const else empty

def isConst (q : Qualifiers) : Bool := q.bits &&& 1 = 1

def hexText (n : Nat) : String := "0x" ++ String.ofList (Nat.toDigits 16 n)

def text (q : Qualifiers) : String :=
  let rest := (q.bits &&& 254).toNat
  if q.isConst then if rest = 0 then "CONST" else s!"CONST | {hexText rest}"
  else if rest = 0 then "" else hexText rest

end Qualifiers

inductive TemplateParam where
  | type (ty : NodeId) (qualifiers : Qualifiers)
  | value (ty : NodeId) (text : String)
  | template (name : String)
  deriving DecidableEq

namespace TemplateParam

def type? : TemplateParam → Option NodeId
  | type ty _ | value ty _ => some ty
  | template _ => none

def value? : TemplateParam → Option String
  | value _ text => some text
  | type _ _ | template _ => none

def qualifiers : TemplateParam → Qualifiers
  | type _ q => q
  | value _ _ | template _ => .empty

end TemplateParam

structure Parent where
  ty : NodeId
  bitOffset : UInt64
  deriving DecidableEq

structure Member where
  name : String
  ty : NodeId
  bitOffset : UInt64
  bitSize : UInt64
  deriving DecidableEq

def Member.isBitfield (m : Member) : Bool := m.bitSize ≠ 0

structure Function where
  name : String
  isVirtual : Bool
  deriving DecidableEq

/- A struct, class or union. Sizes are in bytes; an alignment of zero is unknown. -/
structure Record where
  kind : RecordKind
  name : String
  qualifiedName : String
  size : UInt64
  align : UInt64
  isDynamic : Bool
  params : List TemplateParam
  parents : List Parent
  members : List Member
  functions : List Function
  deriving DecidableEq

structure Container where
  name : String
  size : UInt64
  align : UInt64
  params : List TemplateParam
  deriving DecidableEq

structure EnumeratorMap where
  entries : List (Int64 × String)
  ascending : entries.Pairwise (fun a b => a.1 < b.1)
  deriving DecidableEq

namespace EnumeratorMap

def empty : EnumeratorMap := ⟨[], .nil⟩

/- Puts a name into its place. What becomes of a name that the value has already is up to
`resolve`, which is given the old name. -/
def place (resolve : String → String) (value : Int64) (name : String) :
    List (Int64 × String) → List (Int64 × String)
  | [] => [(value, name)]
  | (v, old) :: rest =>
      if value < v then (value, name) :: (v, old) :: rest
      else if value = v then (v, resolve old) :: rest
      else (v, old) :: place resolve value name rest

theorem memPlace {resolve value name} {xs : List (Int64 × String)} {v : Int64} :
    v ∈ (place resolve value name xs).map Prod.fst ↔ v = value ∨ v ∈ xs.map Prod.fst := by
  induction xs with
  | nil => simp [place]
  | cons x xs ih =>
      simp only [place]
      split
      · simp
      · split
        · rename_i same
          simp [same]
        · simp only [List.map_cons, List.mem_cons, ih]
          exact or_left_comm

theorem placeAscending {resolve value name} {xs : List (Int64 × String)}
    (h : xs.Pairwise (fun a b => a.1 < b.1)) :
    (place resolve value name xs).Pairwise (fun a b => a.1 < b.1) := by
  induction xs with
  | nil => simp [place]
  | cons x xs ih =>
      obtain ⟨first, rest⟩ := List.pairwise_cons.mp h
      simp only [place]
      split
      · rename_i below
        refine List.pairwise_cons.mpr ⟨?_, h⟩
        intro e he
        rcases List.mem_cons.mp he with same | inside
        · simpa [same] using below
        · exact Int64.lt_trans below (first e inside)
      · rename_i above
        split
        · exact List.pairwise_cons.mpr ⟨first, rest⟩
        · rename_i other
          refine List.pairwise_cons.mpr ⟨?_, ih rest⟩
          intro e he
          rcases memPlace.mp (List.mem_map_of_mem he) with same | inside
          · rw [same]
            exact Int64.lt_of_le_of_ne (Int64.not_lt.mp above) (fun equal => other equal.symm)
          · obtain ⟨y, hy, same⟩ := List.mem_map.mp inside
            rw [← same]
            exact first y hy

def insertNew (m : EnumeratorMap) (value : Int64) (name : String) : EnumeratorMap :=
  ⟨place (fun old => old) value name m.entries, placeAscending m.ascending⟩

def insert (m : EnumeratorMap) (value : Int64) (name : String) : EnumeratorMap :=
  ⟨place (fun _ => name) value name m.entries, placeAscending m.ascending⟩

def ofDeclared (xs : List Enumerator) : EnumeratorMap :=
  xs.foldl (fun m e => m.insertNew e.value e.name) empty

end EnumeratorMap

structure EnumNode where
  name : String
  size : UInt64
  enumerators : EnumeratorMap
  deriving DecidableEq

/- Incomplete stands for a type without a definition, a dummy for storage of which nothing but
size and alignment is known, an allocator for one that allocates the target type. -/
inductive Node where
  | primitive (kind : Primitive)
  | record (record : Record)
  | container (container : Container)
  | enum (enum : EnumNode)
  | array (element : NodeId) (length : UInt64)
  | typedef (name : String) (underlying : NodeId)
  | pointer (pointee : NodeId)
  | reference (pointee : NodeId)
  | incomplete (label : String)
  | dummy (size align : UInt64)
  | allocator (target : NodeId) (size align : UInt64)
  deriving DecidableEq

inductive NodeKind where
  | primitive
  | record
  | container
  | enum
  | array
  | typedef
  | pointer
  | reference
  | incomplete
  | dummy
  | allocator
  deriving DecidableEq, Repr

namespace NodeKind

def all : List NodeKind :=
  [primitive, record, container, enum, array, typedef, pointer, reference, incomplete, dummy,
   allocator]

def index (kind : NodeKind) : Nat := all.idxOf kind

def name : NodeKind → String
  | primitive => "Primitive"
  | record => "Class"
  | container => "Container"
  | enum => "Enum"
  | array => "Array"
  | typedef => "Typedef"
  | pointer => "Pointer"
  | reference => "Reference"
  | incomplete => "Incomplete"
  | dummy => "Dummy"
  | allocator => "DummyAllocator"

end NodeKind

namespace Node

def kind : Node → NodeKind
  | primitive _ => .primitive
  | record _ => .record
  | container _ => .container
  | enum _ => .enum
  | array _ _ => .array
  | typedef _ _ => .typedef
  | pointer _ => .pointer
  | reference _ => .reference
  | incomplete _ => .incomplete
  | dummy _ _ => .dummy
  | allocator _ _ _ => .allocator

def size? : Node → Option UInt64
  | primitive kind => some kind.size
  | record r => some r.size
  | container c => some c.size
  | enum e => some e.size
  | dummy size _ => some size
  | allocator _ size _ => some size
  | pointer _ | reference _ => some Primitive.stubbedPointer.size
  | array _ _ | typedef _ _ | incomplete _ => none

def children : Node → List NodeId
  | record r =>
      r.params.filterMap TemplateParam.type? ++ r.parents.map Parent.ty ++ r.members.map Member.ty
  | container c => c.params.filterMap TemplateParam.type?
  | array id _ | typedef _ id | pointer id | reference id | allocator id _ _ => [id]
  | primitive _ | enum _ | incomplete _ | dummy _ _ => []

end Node

def RecordKind.name : RecordKind → String
  | .structKind => "Struct"
  | .classKind => "Class"
  | .unionKind => "Union"

end ObjectLayout
