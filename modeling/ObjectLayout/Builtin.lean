/-! The builtin types of the language. A kind whose width depends on the platform, such as `long`,
is a kind of its own; what it is on a platform is decided by the data model. -/
namespace ObjectLayout

inductive Builtin where
  | void
  | bool
  | charU
  | uchar
  | wcharU
  | char8
  | char16
  | char32
  | ushort
  | uint
  | ulong
  | ulongLong
  | uint128
  | charS
  | schar
  | wcharS
  | short
  | int
  | long
  | longLong
  | int128
  | half
  | float
  | double
  | longDouble
  | float128
  | nullPtr
  deriving DecidableEq, Repr

namespace Builtin

def all : List Builtin :=
  [void, bool, charU, uchar, wcharU, char8, char16, char32, ushort, uint, ulong, ulongLong, uint128,
   charS, schar, wcharS, short, int, long, longLong, int128, half, float, double, longDouble,
   float128, nullPtr]

def index (kind : Builtin) : Nat := all.idxOf kind

def tag : Builtin → String
  | void => "Void"
  | bool => "Bool"
  | charU => "CharU"
  | uchar => "UChar"
  | wcharU => "WCharU"
  | char8 => "Char8"
  | char16 => "Char16"
  | char32 => "Char32"
  | ushort => "UShort"
  | uint => "UInt"
  | ulong => "ULong"
  | ulongLong => "ULongLong"
  | uint128 => "UInt128"
  | charS => "CharS"
  | schar => "SChar"
  | wcharS => "WCharS"
  | short => "Short"
  | int => "Int"
  | long => "Long"
  | longLong => "LongLong"
  | int128 => "Int128"
  | half => "Half"
  | float => "Float"
  | double => "Double"
  | longDouble => "LongDouble"
  | float128 => "Float128"
  | nullPtr => "NullPtr"

def ofTag? (s : String) : Option Builtin := all.find? (fun kind => kind.tag = s)

def name : Builtin → String
  | charU => "Char_U"
  | wcharU => "WChar_U"
  | charS => "Char_S"
  | wcharS => "WChar_S"
  | kind => kind.tag

def spelling : Builtin → String
  | void => "void"
  | bool => "bool"
  | charU | charS => "char"
  | uchar => "unsigned char"
  | wcharU | wcharS => "wchar_t"
  | char8 => "char8_t"
  | char16 => "char16_t"
  | char32 => "char32_t"
  | ushort => "unsigned short"
  | uint => "unsigned int"
  | ulong => "unsigned long"
  | ulongLong => "unsigned long long"
  | uint128 => "unsigned __int128"
  | schar => "signed char"
  | short => "short"
  | int => "int"
  | long => "long"
  | longLong => "long long"
  | int128 => "__int128"
  | half => "__fp16"
  | float => "float"
  | double => "double"
  | longDouble => "long double"
  | float128 => "__float128"
  | nullPtr => "std::nullptr_t"

/- The width in bits where `long` has sixty-four of them. `void` has no width. -/
def bits : Builtin → UInt64
  | void => 0
  | bool | charU | uchar | char8 | charS | schar => 8
  | char16 | ushort | short | half => 16
  | wcharU | wcharS | char32 | uint | int | float => 32
  | ulong | ulongLong | long | longLong | double | nullPtr => 64
  | uint128 | int128 | longDouble | float128 => 128

theorem ofTagTag (kind : Builtin) : ofTag? kind.tag = some kind := by
  cases kind <;> rfl

end Builtin
end ObjectLayout
