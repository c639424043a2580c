/-! The fixed-width primitives that a layout is measured in. -/
namespace ObjectLayout

/-- A stubbed pointer is the address of something that was not followed: the address is measured,
what it points to is not described. -/
inductive Primitive where
  | int8
  | int16
  | int32
  | int64
  | uint8
  | uint16
  | uint32
  | uint64
  | float32
  | float64
  | bool
  | stubbedPointer
  | void
  deriving DecidableEq, Repr

namespace Primitive

def all : List Primitive :=
  [int8, int16, int32, int64, uint8, uint16, uint32, uint64, float32, float64, bool, stubbedPointer,
   void]

abbrev count : Nat := 13

def index : Primitive → Fin count
  | int8 => 0
  | int16 => 1
  | int32 => 2
  | int64 => 3
  | uint8 => 4
  | uint16 => 5
  | uint32 => 6
  | uint64 => 7
  | float32 => 8
  | float64 => 9
  | bool => 10
  | stubbedPointer => 11
  | void => 12

def tag : Primitive → String
  | int8 => "Int8"
  | int16 => "Int16"
  | int32 => "Int32"
  | int64 => "Int64"
  | uint8 => "UInt8"
  | uint16 => "UInt16"
  | uint32 => "UInt32"
  | uint64 => "UInt64"
  | float32 => "Float32"
  | float64 => "Float64"
  | bool => "Bool"
  | stubbedPointer => "StubbedPointer"
  | void => "Void"

def ofTag? (s : String) : Option Primitive := all.find? (fun kind => kind.tag = s)

def spelling : Primitive → String
  | int8 => "int8_t"
  | int16 => "int16_t"
  | int32 => "int32_t"
  | int64 => "int64_t"
  | uint8 => "uint8_t"
  | uint16 => "uint16_t"
  | uint32 => "uint32_t"
  | uint64 => "uint64_t"
  | float32 => "float"
  | float64 => "double"
  | bool => "bool"
  | stubbedPointer => "uintptr_t"
  | void => "void"

def size : Primitive → UInt64
  | int8 | uint8 | bool => 1
  | int16 | uint16 => 2
  | int32 | uint32 | float32 => 4
  | int64 | uint64 | float64 | stubbedPointer => 8
  | void => 0

theorem allIndex (kind : Primitive) : all[kind.index] = kind := by
  cases kind <;> rfl

theorem indexInjective {a b : Primitive} (same : a.index = b.index) : a = b := by
  rw [← allIndex a, ← allIndex b, same]

end Primitive
end ObjectLayout
