import ObjectLayout.Json.Token

/-! From tokens to values. The reader keeps the brackets that are open on a stack of its own, so
nesting costs no depth of calls. Main definition: `Json.parse`. -/
namespace ObjectLayout.Json

inductive Frame where
  | item (before : List Json)
  | member (before : List (Option String × Json)) (key : Option String)

inductive Reader where
  | value (above : List Frame)
  | arrayStart (above : List Frame)
  | arrayNext (items : List Json) (above : List Frame)
  | objectStart (above : List Frame)
  | objectKey (members : List (Option String × Json)) (above : List Frame)
  | objectColon (members : List (Option String × Json)) (key : Option String) (above : List Frame)
  | objectNext (members : List (Option String × Json)) (above : List Frame)
  | done (value : Json)

def Reader.supply (v : Json) : List Frame → Reader
  | [] => .done v
  | .item before :: above => .arrayNext (v :: before) above
  | .member before key :: above => .objectNext ((key, v) :: before) above

def Reader.open? (above : List Frame) : Token → Option Reader
  | .null => some (.supply .null above)
  | .bool b => some (.supply (.bool b) above)
  | .number n => some (.supply (.number n) above)
  | .string s => some (.supply (.string s) above)
  | .bracketOpen => some (.arrayStart above)
  | .braceOpen => some (.objectStart above)
  | .bracketClose | .braceClose | .colon | .comma => none

def Reader.step : Reader → Token → Option Reader
  | .value above, t => open? above t
  | .arrayStart above, .bracketClose => some (supply (.array []) above)
  | .arrayStart above, t => open? (.item [] :: above) t
  | .arrayNext items above, .comma => some (.value (.item items :: above))
  | .arrayNext items above, .bracketClose => some (supply (.array items.reverse) above)
  | .objectStart above, .braceClose => some (supply (.object []) above)
  | .objectStart above, .string key => some (.objectColon [] key above)
  | .objectKey members above, .string key => some (.objectColon members key above)
  | .objectColon members key above, .colon => some (.value (.member members key :: above))
  | .objectNext members above, .comma => some (.objectKey members above)
  | .objectNext members above, .braceClose => some (supply (.object members.reverse) above)
  | _, _ => none

def ofTokens (tokens : List Token) : Option Json := do
  match ← tokens.foldlM Reader.step (.value []) with
  | .done v => some v
  | _ => none

def parse (text : String) : Option Json := do
  let tokens ← scan text.toList
  ofTokens tokens

end ObjectLayout.Json
