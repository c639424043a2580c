import ObjectLayout.Decimal
import ObjectLayout.Graph.Node

/-! What a node and the parts of a record are called in listings. Sizes are in bytes; offsets are
counted in bits and shown in bytes. -/
namespace ObjectLayout

def properties (size align : UInt64) (isDynamic : Bool) : String :=
  s!"(size: {size.toNat}" ++ (if align = 0 then "" else s!", align: {align.toNat}") ++
    (if isDynamic then ", dynamic)" else ")")

def Node.title : Node → String
  | .primitive kind => s!"Primitive: {kind.spelling}"
  | .record r => s!"{r.kind.name}: {r.name} {properties r.size r.align r.isDynamic}"
  | .container c => s!"Container: {c.name} {properties c.size 0 false}"
  | .enum e => s!"Enum: {e.name} {properties e.size 0 false}"
  | .array _ length => s!"Array: (length: {length.toNat})"
  | .typedef name _ => s!"Typedef: {name}"
  | .pointer _ => "Pointer"
  | .reference _ => "Reference"
  | .incomplete label => s!"Incomplete: {label}"
  | .dummy size align => s!"Dummy {properties size align false}"
  | .allocator _ size align => s!"DummyAllocator {properties size align false}"

def Parent.title (p : Parent) : String := s!"Parent (offset: {Decimal.bytesText p.bitOffset})"

def Member.title (m : Member) : String :=
  s!"Member: {m.name} (offset: {Decimal.bytesText m.bitOffset}" ++
    (if m.isBitfield then s!", bitsize: {m.bitSize.toNat})" else ")")

def Function.title (f : Function) : String :=
  if f.isVirtual then s!"Function: {f.name} (virtual)" else s!"Function: {f.name}"

end ObjectLayout
