import ObjectLayout.Builtin
import ObjectLayout.Primitive

/-! The integer widths of a platform, and with them the primitive that a builtin type is. -/
namespace ObjectLayout

inductive DataModel where
  | lp64
  | llp64
  deriving DecidableEq, Repr, Inhabited

namespace DataModel

def name : DataModel → String
  | lp64 => "lp64"
  | llp64 => "llp64"

def ofName? (s : String) : Option DataModel :=
  if s = "lp64" then some lp64 else if s = "llp64" then some llp64 else none

def select {α : Type} (wide narrow : α) : DataModel → α
  | lp64 => wide
  | llp64 => narrow

end DataModel

/-- The primitive that a builtin type is measured as. The kinds without one are the integers of a
hundred and twenty-eight bits, the floats that are neither single nor double nor `long double`, and
the type of the null pointer. An `unsigned long long` is measured as the signed primitive of its
width: earlier measurements are, and new ones have to compare with them. -/
def Builtin.primitive? (model : DataModel) : Builtin → Option Primitive
  | .void => some .void
  | .bool => some .bool
  | .charU | .uchar | .char8 => some .uint8
  | .wcharU => some (model.select .uint32 .uint16)
  | .charS | .schar => some .int8
  | .wcharS => some (model.select .int32 .int16)
  | .char16 | .short => some .int16
  | .char32 | .int => some .int32
  | .ushort => some .uint16
  | .uint => some .uint32
  | .ulong => some (model.select .uint64 .uint32)
  | .long => some (model.select .int64 .int32)
  | .ulongLong | .longLong => some .int64
  | .float => some .float32
  | .double | .longDouble => some .float64
  | .uint128 | .int128 | .half | .float128 | .nullPtr => none

end ObjectLayout
