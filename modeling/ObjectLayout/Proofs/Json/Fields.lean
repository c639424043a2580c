import ObjectLayout.Json.Shape
import ObjectLayout.Proofs.Json.Reading

/-! Data that survives as JSON: its value has a text that can be read, and the reader of such data finds
the data in the value. What is put together from parts survives if the parts do. -/
namespace ObjectLayout.Json

structure Survives {α : Type} (v : Json) (read : Json → Option α) (a : α) : Prop where
  legible : Legible v.tokens
  read : read v = some a

variable {α β : Type}

theorem survivesText (s : String) : Survives (text s) toText? s :=
  ⟨legibleBefore rfl legibleNone, rfl⟩

theorem survivesBool (b : Bool) : Survives (.bool b) toBool? b :=
  ⟨legibleBefore rfl legibleNone, rfl⟩

theorem survivesBelow {n bound : Nat} (inside : n < bound) : Survives (natural n) (below? bound) n := by
  refine ⟨legibleNumber rfl, ?_⟩
  simp only [below?, naturalToNat, bind, Option.bind, if_pos inside]

theorem survivesInteger (n : Int64) : Survives (integer n.toInt) int64? n := by
  refine ⟨legibleNumber rfl, ?_⟩
  have low : Int64.minValue.toInt ≤ n.toInt := Int64.le_iff_toInt_le.mp (Int64.minValue_le n)
  have high : n.toInt ≤ Int64.maxValue.toInt := Int64.le_iff_toInt_le.mp (Int64.le_maxValue n)
  simp only [int64?, integerToInt, bind, Option.bind, if_pos (And.intro low high), Int64.ofInt_toInt]

theorem survivesList {read : Json → Option α} (write : α → Json) {xs : List α}
    (each : ∀ a ∈ xs, Survives (write a) read a) :
    Survives (.array (xs.map write)) (listOf read) xs := by
  constructor
  · apply legibleArray
    intro v member
    obtain ⟨a, inside, rfl⟩ := List.mem_map.mp member
    exact (each a inside).legible
  · simp only [listOf]
    induction xs with
    | nil => rfl
    | cons a rest ih =>
      have head := (each a List.mem_cons_self).read
      have tail := ih (fun b inside => each b (List.mem_cons_of_mem _ inside))
      simp [head, tail]

theorem legibleNull : Legible Json.null.tokens := legibleBefore rfl legibleNone

/- Null says that there is nothing; so what there is must not be written as null. -/
theorem givenRead {v : Json} {read : Json → Option α} {a : α} (survives : Survives v read a)
    (other : v ≠ .null) : (Slot.given v).nullable read = some (some a) := by
  simp only [Slot.nullable, survives.read, Option.map_some]

theorem survivesOption {read : Json → Option α} (write : α → Json) {x : Option α}
    (each : ∀ a, x = some a → Survives (write a) read a ∧ write a ≠ .null) :
    Survives (ofOption write x) (fun v => (Slot.given v).nullable read) x := by
  cases x with
  | none => exact ⟨legibleNull, rfl⟩
  | some a =>
    obtain ⟨survives, other⟩ := each a rfl
    exact ⟨survives.legible, givenRead survives other⟩

@[simp] theorem requiredGiven (read : Json → Option α) (v : Json) :
    (Slot.given v).required read = read v := rfl

@[simp] theorem orElseGiven (default : α) (read : Json → Option α) (v : Json) :
    (Slot.given v).orElse default read = read v := rfl

@[simp] theorem optionalGiven (read : Json → Option α) (v : Json) :
    (Slot.given v).optional read = (Slot.given v).nullable read := rfl

@[simp] theorem optionalAbsent (read : Json → Option α) : Slot.absent.optional read = some none := rfl

def slotOf (named : List (String × Json)) (name : String) : Slot :=
  match named.lookup name with
  | some v => .given v
  | none => .absent

@[simp] theorem slotOfNone (name : String) : slotOf [] name = .absent := rfl

@[simp] theorem slotOfFirst (name : String) (v : Json) (rest : List (String × Json)) :
    slotOf ((name, v) :: rest) name = .given v := by
  rw [slotOf, List.lookup_cons_self]

@[simp] theorem slotOfRest {key name : String} (other : name ≠ key) (v : Json)
    (rest : List (String × Json)) : slotOf ((key, v) :: rest) name = slotOf rest name := by
  have unlike : (name == key) = false := beq_false_of_ne other
  rw [slotOf, List.lookup_cons, unlike, slotOf]

theorem filterAbsent {named : List (String × Json)} {name : String}
    (absent : name ∉ named.map Prod.fst) :
    (named.map (fun (name, v) => (some name, v))).filter (fun m => m.1 = some name) = [] := by
  rw [List.filter_eq_nil_iff]
  intro m member same
  obtain ⟨entry, inside, rfl⟩ := List.mem_map.mp member
  have key : entry.1 = name := by simpa using same
  exact absent (key ▸ List.mem_map_of_mem inside)

theorem slotFound {named : List (String × Json)} (keys : (named.map Prod.fst).Nodup)
    (name : String) :
    slotNamed (named.map (fun (name, v) => (some name, v))) name = some (slotOf named name) := by
  induction named with
  | nil => rfl
  | cons entry rest ih =>
    obtain ⟨key, v⟩ := entry
    obtain ⟨absent, keys⟩ := List.nodup_cons.mp keys
    by_cases same : name = key
    · subst same
      have none := filterAbsent absent
      simp only [slotNamed, slotOfFirst, List.map_cons, List.filter_cons, decide_true, if_true, none]
    · have other : (some key = some name) = False := by simp [Ne.symm same]
      have below := ih keys
      simp only [slotNamed, slotOfRest same, List.map_cons, List.filter_cons, other, decide_false,
        Bool.false_eq_true, if_false] at below ⊢
      exact below

theorem slotsFound {named : List (String × Json)} (keys : (named.map Prod.fst).Nodup)
    (names : List String) : slots names (members named) = some (names.map (slotOf named)) := by
  have written : (named.map (fun (name, v) => (some name, v))).all (fun m => m.1.isSome) = true := by
    simp
  simp only [slots, members, if_pos written]
  induction names with
  | nil => rfl
  | cons name rest ih => simp [slotFound keys name, ih]

theorem bothFound {first second : String} (apart : first ≠ second) (v w : Json) :
    slots [first, second] (members [(first, v), (second, w)]) = some [.given v, .given w] := by
  rw [slotsFound (by simp [apart])]
  simp [apart.symm]

theorem legibleMembers {named : List (String × Json)} (each : ∀ m ∈ named, Legible m.2.tokens) :
    Legible (members named).tokens := by
  apply legibleObject
  intro m member
  obtain ⟨entry, inside, rfl⟩ := List.mem_map.mp member
  exact each entry inside

theorem choiceTagged (name : String) (v : Json) : choice (tagged name v) = some (name, v) := rfl

theorem choiceText (name : String) : choice (text name) = some (name, .null) := rfl

theorem legibleTagged {name : String} {v : Json} (legible : Legible v.tokens) :
    Legible (tagged name v).tokens :=
  legibleMembers (fun _ member => List.mem_singleton.mp member ▸ legible)

theorem survivesPlain {ofTag? : String → Option α} {tag : String} {a : α}
    (known : ofTag? tag = some a) : Survives (text tag) (plainChoice ofTag?) a :=
  ⟨(survivesText tag).legible, by simp [plainChoice, choiceText, known]⟩

end ObjectLayout.Json
