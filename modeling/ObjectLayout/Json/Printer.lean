import ObjectLayout.Json.Token

/-! Compact JSON text. A string is written with the short escapes where there is one, with
`\u00xx` for the other control characters, and every other character as it is. -/
namespace ObjectLayout.Json

def hexDigit (n : Nat) : Char := if n < 10 then Char.ofNat (48 + n) else Char.ofNat (87 + n)

def quoted (c : Char) : List Char :=
  match c with
  | '\x22' => ['\\', '\x22']
  | '\\' => ['\\', '\\']
  | '\x08' => ['\\', 'b']
  | '\x0c' => ['\\', 'f']
  | '\n' => ['\\', 'n']
  | '\r' => ['\\', 'r']
  | '\t' => ['\\', 't']
  | c =>
      if c.toNat < 0x20 then
        ['\\', 'u', '0', '0', hexDigit (c.toNat / 16), hexDigit (c.toNat % 16)]
      else [c]

/- A literal without a text is spelled by a surrogate that has no other half. -/
def Token.chars : Token → List Char
  | .braceOpen => ['\x7b']
  | .braceClose => ['\x7d']
  | .bracketOpen => ['[']
  | .bracketClose => [']']
  | .colon => [':']
  | .comma => [',']
  | .null => ['n', 'u', 'l', 'l']
  | .bool true => ['t', 'r', 'u', 'e']
  | .bool false => ['f', 'a', 'l', 's', 'e']
  | .number n => (if n.negative then ['-'] else []) ++ Nat.toDigits 10 n.whole ++ n.tail
  | .string (some s) => '\x22' :: s.toList.flatMap quoted ++ ['\x22']
  | .string none => ['\x22', '\\', 'u', 'd', '8', '0', '0', '\x22']

mutual

def tokens : Json → List Token
  | .null => [.null]
  | .bool b => [.bool b]
  | .number n => [.number n]
  | .string s => [.string s]
  | .array items => .bracketOpen :: itemTokens items
  | .object members => .braceOpen :: memberTokens members

def itemTokens : List Json → List Token
  | [] => [.bracketClose]
  | [v] => tokens v ++ [.bracketClose]
  | v :: w :: rest => tokens v ++ .comma :: itemTokens (w :: rest)

def memberTokens : List (Option String × Json) → List Token
  | [] => [.braceClose]
  | [(k, v)] => .string k :: .colon :: tokens v ++ [.braceClose]
  | (k, v) :: m :: rest => .string k :: .colon :: tokens v ++ .comma :: memberTokens (m :: rest)

end

def render (v : Json) : String := String.ofList (v.tokens.flatMap Token.chars)

end ObjectLayout.Json
