import Mathlib.Data.List.Nodup
import ObjectLayout.Command.Settings

/-! What the arguments of an invocation mean. By its text an argument is one item, but for a `-o`, which
takes the argument behind it whatever that looks like. So a list of arguments is cut into items in one
way only, and two lists are cut apart from each other, unless the first ends in a `-o` that still takes
what the second begins with. -/
namespace ObjectLayout

theorem valueOfKey {key s value : String} : valueOf? key s = some value ↔ s = key ++ value := by
  rw [← String.toList_inj, String.toList_append]
  unfold valueOf?
  constructor
  · intro found
    split at found
    · rename_i before
      obtain ⟨rest, same⟩ := List.isPrefixOf_iff_prefix.mp before
      cases found
      simp [← same, ← String.length_toList]
    · contradiction
  · intro same
    have before : key.toList.isPrefixOf s.toList = true :=
      List.isPrefixOf_iff_prefix.mpr ⟨value.toList, same.symm⟩
    rw [if_pos before, same, ← String.length_toList, List.drop_left, String.ofList_toList]

theorem valueOfOther {key s : String} : valueOf? key s = none ↔ ∀ value, s ≠ key ++ value := by
  rw [Option.eq_none_iff_forall_ne_some]
  exact forall_congr' (fun value => not_congr valueOfKey)

namespace Argument

def flags : List (String × Argument) :=
  [("--chase-raw-pointers", chasePointers), ("--read-enum-values", readEnumerators)]

structure Unrecognized (s : String) : Prop where
  flag : ∀ item, (s, item) ∉ flags
  key : ∀ key make, (key, make) ∈ keyed → ∀ value, s ≠ key ++ value

inductive Means : String → Argument → Prop
  | flag {s item} (known : (s, item) ∈ flags) : Means s item
  | keyed {key make} (known : (key, make) ∈ keyed) (value : String) : Means (key ++ value) (make value)
  | unknown {s} (other : Unrecognized s) : Means s (.unknown s)

theorem keysApart : ∀ a ∈ keyed, ∀ b ∈ keyed, a.1 ≠ b.1 → ¬ a.1.toList <+: b.1.toList := by
  decide

theorem flagsApart : ∀ a ∈ keyed, ∀ b ∈ flags, ¬ a.1.toList <+: b.1.toList := by
  decide

theorem keysDistinct : (keyed.map Prod.fst).Nodup := by
  decide

theorem keyBegins (key value : String) : key.toList <+: (key ++ value).toList :=
  ⟨value.toList, String.toList_append.symm⟩

theorem keyedFlag {key : String} {make} (known : (key, make) ∈ keyed) (value : String) :
    ∀ row ∈ flags, key ++ value ≠ row.1 :=
  fun _ flag same => flagsApart _ known _ flag (same ▸ keyBegins key value)

theorem Unrecognized.noFlag {s : String} (other : Unrecognized s) : ∀ row ∈ flags, s ≠ row.1 :=
  fun row known same => other.flag row.2 (same ▸ known)

theorem Unrecognized.noValue {s : String} (other : Unrecognized s) :
    ∀ row ∈ keyed, valueOf? row.1 s = none :=
  fun row known => valueOfOther.mpr (other.key row.1 row.2 known)

theorem keyedOther {key other : String} {make make'} (known : (key, make) ∈ keyed)
    (also : (other, make') ∈ keyed) (apart : other ≠ key) (value : String) :
    valueOf? other (key ++ value) = none := by
  rw [valueOfOther]
  intro rest same
  have first := keyBegins key value
  have second := same ▸ keyBegins other rest
  -- of two keys that begin one text, the shorter begins the longer
  rcases List.prefix_or_prefix_of_prefix first second with before | before
  · exact keysApart _ known _ also apart.symm before
  · exact keysApart _ also _ known apart before

theorem keyedAsked {key : String} {make} (known : (key, make) ∈ keyed)
    {row : String × (String → Argument)} (also : row ∈ keyed) (value : String) :
    valueOf? row.1 (key ++ value) = if row.1 = key then some value else none := by
  split
  · rename_i same
    exact same ▸ valueOfKey.mpr rfl
  · rename_i apart
    exact keyedOther known also apart value

theorem textOfOther {s : String} (other : ∀ row ∈ flags, s ≠ row.1) :
    ofText s = (keyed.findSome? (fun (key, make) => (valueOf? key s).map make)).getD (unknown s) := by
  simp only [flags, List.forall_mem_cons] at other
  rw [ofText, if_neg other.1, if_neg other.2.1]

theorem keyedText {key make} (known : (key, make) ∈ keyed) (value : String) :
    ofText (key ++ value) = make value := by
  rw [textOfOther (keyedFlag known value)]
  have own : valueOf? key (key ++ value) = some value := valueOfKey.mpr rfl
  cases found : keyed.findSome? (fun (key', make') => (valueOf? key' (key ++ value)).map make') with
  | none =>
    have none := List.findSome?_eq_none_iff.mp found _ known
    simp [own] at none
  | some item =>
    obtain ⟨⟨other, make'⟩, also, made⟩ := List.exists_of_findSome?_eq_some found
    by_cases same : other = key
    · subst same
      have equal := List.inj_on_of_nodup_map keysDistinct known also rfl
      cases equal
      simpa [own] using made.symm
    · simp [keyedOther known also same] at made

theorem flagText {s item} (known : (s, item) ∈ flags) : ofText s = item := by
  simp only [flags, List.mem_cons, Prod.mk.injEq, List.not_mem_nil, or_false] at known
  rcases known with ⟨rfl, rfl⟩ | ⟨rfl, rfl⟩ <;> rfl

theorem unknownText {s : String} (other : Unrecognized s) : ofText s = .unknown s := by
  have none : keyed.findSome? (fun (key, make) => (valueOf? key s).map make) = none := by
    rw [List.findSome?_eq_none_iff]
    intro row known
    simp only [other.noValue row known, Option.map_none]
  rw [textOfOther other.noFlag, none]
  rfl

theorem meantByText (s : String) : Means s (ofText s) := by
  by_cases flag : ∃ item, (s, item) ∈ flags
  · obtain ⟨item, known⟩ := flag
    exact flagText known ▸ .flag known
  · by_cases key : ∃ key make, (key, make) ∈ keyed ∧ ∃ value, s = key ++ value
    · obtain ⟨key, make, known, value, rfl⟩ := key
      exact keyedText known value ▸ .keyed known value
    · have other : Unrecognized s := ⟨fun item known => flag ⟨item, known⟩,
        fun key' make known value same => key ⟨key', make, known, value, same⟩⟩
      exact unknownText other ▸ .unknown other

theorem meansText {s : String} {item : Argument} : Means s item ↔ ofText s = item := by
  constructor
  · intro meant
    cases meant with
    | flag known => exact flagText known
    | keyed known value => exact keyedText known value
    | unknown other => exact unknownText other
  · intro same
    exact same ▸ meantByText s

theorem unknownMeant {s text : String} (meant : Means s (.unknown text)) :
    s = text ∧ Unrecognized s := by
  generalize same : Argument.unknown text = item at meant
  cases meant with
  | flag known =>
    subst same
    simp [flags] at known
  | @keyed key make known value =>
    simp only [keyed, List.mem_cons, Prod.mk.injEq, List.not_mem_nil, or_false] at known
    rcases known with ⟨-, rfl⟩ | ⟨-, rfl⟩ | ⟨-, rfl⟩ | ⟨-, rfl⟩ | ⟨-, rfl⟩ | ⟨-, rfl⟩ <;> cases same
  | unknown other =>
    cases same
    exact ⟨rfl, other⟩

theorem unrecognizedText {s : String} (unknown : ofText s = .unknown s) : Unrecognized s :=
  (unknownMeant (meansText.mpr unknown)).2

theorem dashUnrecognized : Unrecognized "-o" := unrecognizedText (by decide)

inductive Cut : List String → List Argument → Prop
  | nil : Cut [] []
  | path {path rest items} (after : Cut rest items) :
      Cut ("-o" :: path :: rest) (.output path :: items)
  | last : Cut ["-o"] [.unknown "-o"]
  | plain {s rest item items} (apart : s ≠ "-o") (meant : Means s item) (after : Cut rest items) :
      Cut (s :: rest) (item :: items)

theorem splitPath (path : String) (rest : List String) :
    split ("-o" :: path :: rest) = .output path :: split rest := by
  simp [split]

theorem splitLast : split ["-o"] = [.unknown "-o"] := by
  decide

theorem splitPlain {s : String} (apart : s ≠ "-o") (rest : List String) :
    split (s :: rest) = ofText s :: split rest := by
  cases rest with
  | nil => simp [split]
  | cons path rest => simp [split, apart]

theorem cutBySplit (args : List String) : Cut args (split args) := by
  induction args using split.induct with
  | case1 => exact .nil
  | case2 s =>
    by_cases same : s = "-o"
    · subst same
      exact splitLast ▸ .last
    · exact splitPlain same [] ▸ .plain same (meantByText s) .nil
  | case3 path rest after => exact splitPath path rest ▸ .path after
  | case4 s path rest apart after =>
    exact splitPlain apart (path :: rest) ▸ .plain apart (meantByText s) after

theorem cutSplit {args : List String} {items : List Argument} :
    Cut args items ↔ items = split args := by
  constructor
  · intro cut
    induction cut with
    | nil => rfl
    | path after ih => rw [splitPath, ih]
    | last => exact splitLast.symm
    | plain apart meant after ih => rw [splitPlain apart, ih, meansText.mp meant]
  · intro same
    exact same ▸ cutBySplit args

/-- Whether the last argument is a `-o` that still takes a path. -/
def waits (args : List String) : Bool :=
  args.foldl (fun waiting s => !waiting && s = "-o") false

theorem waitsPath (path : String) (rest : List String) :
    waits ("-o" :: path :: rest) = waits rest := by
  simp [waits]

theorem waitsPlain {s : String} (apart : s ≠ "-o") (rest : List String) :
    waits (s :: rest) = waits rest := by
  simp [waits, apart]

theorem waitsCut {args : List String} {items : List Argument} (cut : Cut args items) :
    waits args = true ↔ .unknown "-o" ∈ items := by
  induction cut with
  | nil => simp [waits]
  | @path path rest items after ih => simp [waitsPath, ih]
  | last => simp [waits]
  | @plain s rest item items apart meant after ih =>
    have other : .unknown "-o" ≠ item := by
      rintro rfl
      exact apart (unknownMeant meant).1
    simp [waitsPlain apart, ih, other]

theorem splitAppend {a : List String} (ready : waits a = false) (b : List String) :
    split (a ++ b) = split a ++ split b := by
  induction a using split.induct with
  | case1 => rfl
  | case2 s =>
    have apart : s ≠ "-o" := fun same => by simp [waits, same] at ready
    simp [splitPlain apart, split]
  | case3 path rest ih =>
    rw [waitsPath] at ready
    simp [splitPath, ih ready]
  | case4 s path rest apart ih =>
    rw [waitsPlain apart] at ready
    have later := ih ready
    simp only [List.cons_append] at later ⊢
    rw [splitPlain apart, splitPlain apart, later, List.cons_append]

inductive Idle : String → Prop
  | unknown {s} (other : Unrecognized s) (apart : s ≠ "-o") : Idle s
  | model {name} (unknown : DataModel.ofName? name = none) : Idle ("--data-model=" ++ name)
  | emit {name} (unknown : Emit.ofName? name = none) : Idle ("--emit=" ++ name)

end Argument
end ObjectLayout
