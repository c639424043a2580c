import ObjectLayout.Json.Basic

/-! Reading typed data from JSON values. A record of fields may be written as an object, where
unknown members are passed over and a known one must not repeat, or as an array of its fields in
order. A choice is the name of an alternative, or an object with one member that names it. -/
namespace ObjectLayout.Json

/- What was written for a field: a value, nothing in an object that has no such member, or nothing
because the array was too short. -/
inductive Slot where
  | given (v : Json)
  | absent
  | cut

namespace Slot

def required {α : Type} (read : Json → Option α) : Slot → Option α
  | given v => read v
  | absent | cut => none

def orElse {α : Type} (default : α) (read : Json → Option α) : Slot → Option α
  | given v => read v
  | absent | cut => some default

/- A field that may be null. An object may leave it out, an array may not. -/
def nullable {α : Type} (read : Json → Option α) : Slot → Option (Option α)
  | given .null => some none
  | given v => (read v).map some
  | absent => some none
  | cut => none

def optional {α : Type} (read : Json → Option α) : Slot → Option (Option α)
  | cut => some none
  | slot => slot.nullable read

end Slot

def slotsOfArray : List String → List Json → Option (List Slot)
  | [], [] => some []
  | [], _ :: _ => none
  | _ :: names, [] => (slotsOfArray names []).map (.cut :: ·)
  | _ :: names, v :: rest => (slotsOfArray names rest).map (.given v :: ·)

def slotNamed (members : List (Option String × Json)) (name : String) : Option Slot :=
  match members.filter (fun m => m.1 = some name) with
  | [] => some .absent
  | [(_, v)] => some (.given v)
  | _ => none

def slots (names : List String) : Json → Option (List Slot)
  | .array items => slotsOfArray names items
  | .object members =>
      if members.all (fun m => m.1.isSome) then names.mapM (slotNamed members) else none
  | _ => none

def choice : Json → Option (String × Json)
  | .string (some name) => some (name, .null)
  | .object [(some name, v)] => some (name, v)
  | _ => none

def plainChoice {α : Type} (ofTag? : String → Option α) (v : Json) : Option α := do
  match ← choice v with
  | (name, .null) => ofTag? name
  | _ => none

def listOf {α : Type} (read : Json → Option α) : Json → Option (List α)
  | .array items => items.mapM read
  | _ => none

def members (named : List (String × Json)) : Json :=
  .object (named.map (fun (name, v) => (some name, v)))

def tagged (name : String) (v : Json) : Json := members [(name, v)]

def ofOption {α : Type} (write : α → Json) : Option α → Json
  | some a => write a
  | none => .null

end ObjectLayout.Json
