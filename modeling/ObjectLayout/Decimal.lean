/-! Byte offsets in decimal. A count of bits is shown as a number of bytes the way a double of it
is: the count is rounded to fifty-three binary digits, and of the decimals that round to the same
double the one with the fewest digits is written, in full and without an exponent. An eighth has
three places, so a decimal is held as its number of thousandths. -/
namespace ObjectLayout.Decimal

def bitLength (n : Nat) : Nat := if n = 0 then 0 else n.log2 + 1

/- The nearest multiple of `step`; halfway between two it is the even one. -/
def nearestMultiple (n step : Nat) : Nat :=
  let q := n / step
  let twice := 2 * (n % step)
  if twice < step ∨ (twice = step ∧ q % 2 = 0) then q * step else (q + 1) * step

def nearestDouble (n : Nat) : Nat := nearestMultiple n (1 <<< (bitLength n - 53))

/- The numbers that round to a double, in units of a thousandth over two to the fifty-seventh.
The ends belong to it if the last binary digit of the double is even. -/
structure Range where
  low : Nat
  high : Nat
  closed : Bool
  deriving DecidableEq, Repr

def Range.contains (r : Range) (thousandths : Nat) : Bool :=
  let x := thousandths <<< 57
  if r.closed then r.low ≤ x ∧ x ≤ r.high else r.low < x ∧ x < r.high

/- The range of an eighth of a double. Half of the gap to the next double lies above it, and half
of the gap to the last one below, which is narrower under a power of two. -/
def Range.ofEighths (double : Nat) : Range :=
  let above := 125 <<< (bitLength double + 3)
  let below := if double = 1 <<< (bitLength double - 1) then above / 2 else above
  let center := (125 * double) <<< 57
  ⟨center - below, center + above,
    bitLength double ≠ 53 && (double >>> (bitLength double - 53)) % 2 = 0 ||
      bitLength double = 53 && double % 2 = 0⟩

/- The multiple of `step` that is nearest to `exact` among those in the range, the larger of two
that are equally near. -/
def onGrid? (r : Range) (exact step : Nat) : Option Nat :=
  let down := exact / step * step
  let up := down + step
  if r.contains up ∧ (up - exact ≤ exact - down ∨ !r.contains down) then some up
  else if r.contains down then some down
  else none

def shortest (double : Nat) : Nat :=
  let exact := 125 * double
  let range := Range.ofEighths double
  ((List.range 24).reverse.findSome? (fun j => onGrid? range exact (Nat.pow 10 j))).getD exact

def places (n : Nat) : List Char :=
  let digits := [n / 100 % 10, n / 10 % 10, n % 10].map Nat.digitChar
  (digits.reverse.dropWhile (fun c => c = '0')).reverse

def text (thousandths : Nat) : String :=
  let whole := Nat.toDigits 10 (thousandths / 1000)
  match places (thousandths % 1000) with
  | [] => String.ofList whole
  | digits => String.ofList (whole ++ '.' :: digits)

def bytesText (bits : UInt64) : String := text (shortest (nearestDouble bits.toNat))

end ObjectLayout.Decimal
