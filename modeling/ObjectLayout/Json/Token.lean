import ObjectLayout.Json.Basic

/-! The tokens of JSON text and the scanner that finds them. The scanner takes one character at
a time, so every text, however deep its brackets, is read by one pass over its characters. -/
namespace ObjectLayout.Json

inductive Token where
  | braceOpen
  | braceClose
  | bracketOpen
  | bracketClose
  | colon
  | comma
  | null
  | bool (value : Bool)
  | number (value : Number)
  | string (text : Option String)
  deriving DecidableEq, Repr

inductive NumberPart where
  | sign
  | zero
  | whole
  | point
  | fraction
  | exponentMark
  | exponentSign
  | exponent
  deriving DecidableEq, Repr

def NumberPart.mayEnd : NumberPart → Bool
  | .zero | .whole | .fraction | .exponent => true
  | .sign | .point | .exponentMark | .exponentSign => false

structure NumberScan where
  part : NumberPart
  negative : Bool
  whole : Nat
  tail : List Char
  deriving DecidableEq, Repr

def NumberScan.token (n : NumberScan) : Token := .number ⟨n.negative, n.whole, n.tail.reverse⟩

inductive StringPart where
  | plain
  | escape
  | hex (count : Nat) (value : Nat)
  deriving DecidableEq, Repr

/- The text read so far, in reverse. `high` is an escaped high surrogate whose other half must
be the next escape; `broken` records that a surrogate stayed without its other half. -/
structure StringScan where
  text : List Char
  broken : Bool
  high : Option Nat
  deriving DecidableEq, Repr

def StringScan.start : StringScan := ⟨[], false, none⟩

def StringScan.settle (s : StringScan) : StringScan :=
  ⟨s.text, s.broken || s.high.isSome, none⟩

def StringScan.push (s : StringScan) (c : Char) : StringScan :=
  { s.settle with text := c :: s.text }

def StringScan.unit (s : StringScan) (u : Nat) : StringScan :=
  match s.high with
  | some h =>
      if 0xDC00 ≤ u ∧ u < 0xE000 then
        ⟨Char.ofNat (0x10000 + (h - 0xD800) * 0x400 + (u - 0xDC00)) :: s.text, s.broken, none⟩
      else ⟨s.text, true, none⟩
  | none =>
      if 0xD800 ≤ u ∧ u < 0xDC00 then ⟨s.text, s.broken, some u⟩
      else if 0xDC00 ≤ u ∧ u < 0xE000 then ⟨s.text, true, none⟩
      else ⟨Char.ofNat u :: s.text, s.broken, none⟩

def StringScan.token (s : StringScan) : Token :=
  .string (if s.settle.broken then none else some (String.ofList s.text.reverse))

inductive Mode where
  | between
  | word (rest : List Char) (token : Token)
  | number (scan : NumberScan)
  | string (part : StringPart) (scan : StringScan)
  deriving DecidableEq, Repr

structure Scanner where
  mode : Mode
  tokens : List Token
  deriving DecidableEq, Repr

def Scanner.start : Scanner := ⟨.between, []⟩

def Scanner.emit (s : Scanner) (t : Token) : Scanner := ⟨.between, t :: s.tokens⟩

def decimalDigit? (c : Char) : Option Nat :=
  if '0' ≤ c ∧ c ≤ '9' then some (c.toNat - 48) else none

def hexDigit? (c : Char) : Option Nat :=
  if '0' ≤ c ∧ c ≤ '9' then some (c.toNat - 48)
  else if 'a' ≤ c ∧ c ≤ 'f' then some (c.toNat - 87)
  else if 'A' ≤ c ∧ c ≤ 'F' then some (c.toNat - 55)
  else none

def escaped? (c : Char) : Option Char :=
  match c with
  | '\x22' => some '\x22'
  | '\\' => some '\\'
  | '/' => some '/'
  | 'b' => some '\x08'
  | 'f' => some '\x0c'
  | 'n' => some '\n'
  | 'r' => some '\r'
  | 't' => some '\t'
  | _ => none

def Scanner.between (s : Scanner) (c : Char) : Option Scanner :=
  match c with
  | ' ' | '\n' | '\r' | '\t' => some s
  | '\x7b' => some (s.emit .braceOpen)
  | '\x7d' => some (s.emit .braceClose)
  | '[' => some (s.emit .bracketOpen)
  | ']' => some (s.emit .bracketClose)
  | ':' => some (s.emit .colon)
  | ',' => some (s.emit .comma)
  | 'n' => some { s with mode := .word ['u', 'l', 'l'] .null }
  | 't' => some { s with mode := .word ['r', 'u', 'e'] (.bool true) }
  | 'f' => some { s with mode := .word ['a', 'l', 's', 'e'] (.bool false) }
  | '\x22' => some { s with mode := .string .plain .start }
  | '-' => some { s with mode := .number ⟨.sign, true, 0, []⟩ }
  | '0' => some { s with mode := .number ⟨.zero, false, 0, []⟩ }
  | _ => do
      let d ← decimalDigit? c
      some { s with mode := .number ⟨.whole, false, d, []⟩ }

def NumberScan.next (n : NumberScan) (c : Char) : Option NumberScan :=
  let take (part : NumberPart) : NumberScan := ⟨part, n.negative, n.whole, c :: n.tail⟩
  match n.part, decimalDigit? c with
  | .sign, some 0 => some { n with part := .zero }
  | .sign, some d | .whole, some d => some { n with part := .whole, whole := n.whole * 10 + d }
  | .point, some _ | .fraction, some _ => some (take .fraction)
  | .exponentMark, some _ | .exponentSign, some _ | .exponent, some _ => some (take .exponent)
  | .zero, some _ => none
  | part, none =>
      match part, c with
      | .zero, '.' | .whole, '.' => some (take .point)
      | .zero, 'e' | .whole, 'e' | .fraction, 'e'
      | .zero, 'E' | .whole, 'E' | .fraction, 'E' => some (take .exponentMark)
      | .exponentMark, '+' | .exponentMark, '-' => some (take .exponentSign)
      | _, _ => none

def Scanner.step (s : Scanner) (c : Char) : Option Scanner :=
  match s.mode with
  | .between => s.between c
  | .word [] _ => none
  | .word (e :: rest) token =>
      if c = e then
        match rest with
        | [] => some (s.emit token)
        | _ :: _ => some { s with mode := .word rest token }
      else none
  | .number n =>
      match n.next c with
      | some n => some { s with mode := .number n }
      | none =>
          if n.part.mayEnd ∧ decimalDigit? c = none then (s.emit n.token).between c else none
  | .string .plain scan =>
      if c = '\x22' then some (s.emit scan.token)
      else if c = '\\' then some { s with mode := .string .escape scan }
      else if c.toNat < 0x20 then none
      else some { s with mode := .string .plain (scan.push c) }
  | .string .escape scan =>
      if c = 'u' then some { s with mode := .string (.hex 0 0) scan }
      else do
        let e ← escaped? c
        some { s with mode := .string .plain (scan.push e) }
  | .string (.hex count value) scan => do
      let d ← hexDigit? c
      let value := value * 16 + d
      if count < 3 then some { s with mode := .string (.hex (count + 1) value) scan }
      else some { s with mode := .string .plain (scan.unit value) }

def Scanner.finish (s : Scanner) : Option (List Token) :=
  match s.mode with
  | .between => some s.tokens.reverse
  | .number n => if n.part.mayEnd then some (n.token :: s.tokens).reverse else none
  | .word _ _ | .string _ _ => none

def scan (text : List Char) : Option (List Token) := do
  let s ← text.foldlM Scanner.step Scanner.start
  s.finish

end ObjectLayout.Json
