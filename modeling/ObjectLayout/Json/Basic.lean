/-! JSON values as they are written. Nothing is lost that a reader may ask for later: members
keep their order and their repetitions, a number keeps its spelling behind the whole digits, and
a string literal whose escapes hold an unpaired surrogate is a literal without a text. -/
namespace ObjectLayout

/- A number literal. The grammar allows no leading zeros, so the digits before the point are a
natural number; a fraction and an exponent are kept as the characters that spell them. -/
structure Json.Number where
  negative : Bool
  whole : Nat
  tail : List Char
  deriving DecidableEq, Repr

inductive Json where
  | null
  | bool (value : Bool)
  | number (value : Json.Number)
  | string (text : Option String)
  | array (items : List Json)
  | object (members : List (Option String × Json))
  deriving Inhabited

namespace Json

def text (s : String) : Json := .string (some s)

def natural (n : Nat) : Json := .number ⟨false, n, []⟩

def integer (n : Int) : Json := .number ⟨decide (n < 0), n.natAbs, []⟩

def Number.toNat? (n : Number) : Option Nat :=
  if n.negative = false ∧ n.tail = [] then some n.whole else none

def Number.toInt? (n : Number) : Option Int :=
  if n.tail ≠ [] then none
  else if n.negative then
    if n.whole = 0 then none else some (-(n.whole : Int))
  else some n.whole

def toNat? : Json → Option Nat
  | .number n => n.toNat?
  | _ => none

def toInt? : Json → Option Int
  | .number n => n.toInt?
  | _ => none

def toText? : Json → Option String
  | .string s => s
  | _ => none

def toBool? : Json → Option Bool
  | .bool b => some b
  | _ => none

def toArray? : Json → Option (List Json)
  | .array items => some items
  | _ => none

def below? (bound : Nat) (j : Json) : Option Nat := do
  let n ← j.toNat?
  if n < bound then some n else none

def word64? (j : Json) : Option UInt64 := (j.below? UInt64.size).map UInt64.ofNat

def int64? (j : Json) : Option Int64 := do
  let n ← j.toInt?
  if Int64.minValue.toInt ≤ n ∧ n ≤ Int64.maxValue.toInt then some (Int64.ofInt n) else none

theorem naturalToNat (n : Nat) : (natural n).toNat? = some n := by
  simp [natural, toNat?, Number.toNat?]

theorem integerToInt (n : Int) : (integer n).toInt? = some n := by
  simp only [integer, toInt?, Number.toInt?, ne_eq, not_true_eq_false, if_false, decide_eq_true_eq]
  by_cases h : n < 0
  · have nonzero : n.natAbs ≠ 0 := by omega
    have value : -(n.natAbs : Int) = n := by omega
    rw [if_pos h, if_neg nonzero, value]
  · have value : (n.natAbs : Int) = n := by omega
    rw [if_neg h, value]

end Json
end ObjectLayout
