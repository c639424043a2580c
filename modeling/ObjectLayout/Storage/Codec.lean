/-! Binary codecs. A codec writes a value as bytes and reads one off the front of a sequence of
bytes. Numbers have a fixed width and come lowest byte first; texts and lists come behind their
length; an alternative comes behind its number. -/
namespace ObjectLayout

abbrev Bytes := List UInt8

/- Why bytes are no written value: they end too soon, a text is not UTF-8, a truth value or the
mark of an optional value is neither zero nor one, or there is no alternative of that number. -/
inductive ReadError where
  | outOfBytes
  | invalidText
  | invalidBool
  | invalidOption
  | invalidAlternative
  deriving DecidableEq, Repr

def ReadError.message : ReadError → String
  | .outOfBytes => "the data ends too soon"
  | .invalidText => "a text is not valid UTF-8"
  | .invalidBool => "a truth value is neither 0 nor 1"
  | .invalidOption => "the mark of an optional value is neither 0 nor 1"
  | .invalidAlternative => "there is no alternative of that number"

abbrev Read := StateT Bytes (Except ReadError)

structure Codec (α : Type) where
  write : α → Bytes
  read : Read α

namespace Codec

def refuse {α : Type} (e : ReadError) : Read α := fun _ => .error e

def readByte : Read UInt8
  | [] => .error .outOfBytes
  | b :: rest => .ok (b, rest)

def byte : Codec UInt8 := ⟨fun b => [b], readByte⟩

def map {α β : Type} (c : Codec α) (make : α → β) (parts : β → α) : Codec β where
  write b := c.write (parts b)
  read := do
    let a ← c.read
    pure (make a)

def pair {α β : Type} (c : Codec α) (d : Codec β) : Codec (α × β) where
  write p := c.write p.1 ++ d.write p.2
  read := do
    let a ← c.read
    let b ← d.read
    pure (a, b)

def writeNat : Nat → Nat → Bytes
  | 0, _ => []
  | width + 1, n => UInt8.ofNat n :: writeNat width (n / 256)

def readNat : Nat → Read Nat
  | 0 => pure 0
  | width + 1 => do
      let low ← readByte
      let high ← readNat width
      pure (low.toNat + 256 * high)

def nat (width : Nat) : Codec Nat := ⟨writeNat width, readNat width⟩

def word32 : Codec Nat := nat 4

def word64 : Codec UInt64 := (nat 8).map UInt64.ofNat UInt64.toNat

def int64 : Codec Int64 := word64.map UInt64.toInt64 Int64.toUInt64

def bool : Codec Bool where
  write b := [if b then 1 else 0]
  read := do
    match ← readByte with
    | 0 => pure false
    | 1 => pure true
    | _ => refuse .invalidBool

def option {α : Type} (c : Codec α) : Codec (Option α) where
  write
    | none => [0]
    | some a => 1 :: c.write a
  read := do
    match ← readByte with
    | 0 => pure none
    | 1 => do
        let a ← c.read
        pure (some a)
    | _ => refuse .invalidOption

def readTimes {α : Type} (c : Codec α) : Nat → Read (List α)
  | 0 => pure []
  | n + 1 => do
      let a ← c.read
      let rest ← readTimes c n
      pure (a :: rest)

def list {α : Type} (c : Codec α) : Codec (List α) where
  write xs := writeNat 8 xs.length ++ xs.flatMap c.write
  read := do
    let n ← readNat 8
    readTimes c n

def readVector {α : Type} (c : Codec α) : (n : Nat) → Read (Vector α n)
  | 0 => pure #v[]
  | n + 1 => do
      let front ← readVector c n
      let a ← c.read
      pure (front.push a)

def vector {α : Type} (c : Codec α) (n : Nat) : Codec (Vector α n) where
  write v := v.toList.flatMap c.write
  read := readVector c n

def readBytes (n : Nat) : Read Bytes := fun data =>
  if n ≤ data.length then .ok (data.take n, data.drop n) else .error .outOfBytes

def text : Codec String where
  write s := writeNat 8 s.toUTF8.size ++ s.toUTF8.toList
  read := do
    let n ← readNat 8
    let data ← readBytes n
    match String.fromUTF8? ⟨data.toArray⟩ with
    | some s => pure s
    | none => refuse .invalidText

def oneOf {α : Type} [BEq α] (all : List α) : Codec α where
  write a := word32.write (all.idxOf a)
  read := do
    let i ← word32.read
    match all[i]? with
    | some a => pure a
    | none => refuse .invalidAlternative

end Codec
end ObjectLayout
