import ObjectLayout.Json.Parser
import ObjectLayout.Proofs.Json.Scanning

/-! A value is read back from its own tokens, and so from its text. The reader is followed through the
tokens of a value down to its parts; what comes after them is left to the brackets around it. -/
namespace ObjectLayout.Json

def Reader.fed (r : Reader) (tokens : List Token) : Option Reader := tokens.foldlM Reader.step r

theorem fedCons {r next : Reader} {t : Token} (step : r.step t = some next) (rest : List Token) :
    r.fed (t :: rest) = next.fed rest := by
  simp only [Reader.fed, List.foldlM_cons, step]
  rfl

/- Inside an array that has just been opened a value is read as after a comma: no value begins with
what would close the array. -/
theorem arrayStarts (v : Json) (above : List Frame) (rest : List Token) :
    (Reader.arrayStart above).fed (v.tokens ++ rest) =
      (Reader.value (.item [] :: above)).fed (v.tokens ++ rest) := by
  cases v <;> simp only [tokens, Reader.fed, List.cons_append, List.foldlM_cons] <;> rfl

theorem objectStarts (key : Option String) (above : List Frame) (rest : List Token) :
    (Reader.objectStart above).fed (.string key :: rest) =
      (Reader.objectKey [] above).fed (.string key :: rest) := rfl

theorem itemTokensCons (v : Json) (items : List Json) :
    ∃ tail, itemTokens (v :: items) = v.tokens ++ tail := by
  cases items <;> exact ⟨_, rfl⟩

theorem memberTokensCons (key : Option String) (v : Json) (members : List (Option String × Json)) :
    ∃ tail, memberTokens ((key, v) :: members) = .string key :: tail := by
  cases members <;> exact ⟨_, rfl⟩

mutual

theorem valueFed (above : List Frame) (rest : List Token) : (v : Json) →
    (Reader.value above).fed (v.tokens ++ rest) = (Reader.supply v above).fed rest
  | .null | .bool _ | .number _ | .string _ => fedCons rfl rest
  | .array [] => (fedCons rfl _).trans (fedCons rfl rest)
  | .array (v :: items) => by
      obtain ⟨tail, begins⟩ := itemTokensCons v items
      have opened := arrayStarts v above (tail ++ rest)
      rw [← List.append_assoc, ← begins] at opened
      exact (fedCons rfl _).trans (opened.trans (itemsFed [] above rest (v :: items) (by simp)))
  | .object [] => (fedCons rfl _).trans (fedCons rfl rest)
  | .object ((key, v) :: members) => by
      obtain ⟨tail, begins⟩ := memberTokensCons key v members
      have opened := objectStarts key above (tail ++ rest)
      rw [← List.cons_append, ← begins] at opened
      exact (fedCons rfl _).trans
        (opened.trans (membersFed [] above rest ((key, v) :: members) (by simp)))

theorem itemsFed (before : List Json) (above : List Frame) (rest : List Token) :
    (items : List Json) → items ≠ [] →
    (Reader.value (.item before :: above)).fed (itemTokens items ++ rest) =
      (Reader.supply (.array (before.reverse ++ items)) above).fed rest
  | [], nonempty => absurd rfl nonempty
  | [v], _ => by
      rw [itemTokens, List.append_assoc, valueFed]
      exact (fedCons rfl rest).trans (by simp)
  | v :: w :: items, _ => by
      rw [itemTokens, List.append_assoc, valueFed]
      refine (fedCons rfl _).trans ?_
      exact (itemsFed (v :: before) above rest (w :: items) (by simp)).trans (by simp)

theorem membersFed (before : List (Option String × Json)) (above : List Frame) (rest : List Token) :
    (members : List (Option String × Json)) → members ≠ [] →
    (Reader.objectKey before above).fed (memberTokens members ++ rest) =
      (Reader.supply (.object (before.reverse ++ members)) above).fed rest
  | [], nonempty => absurd rfl nonempty
  | [(key, v)], _ => by
      rw [memberTokens, List.append_assoc]
      refine (fedCons rfl _).trans ((fedCons rfl _).trans ((valueFed _ _ v).trans ?_))
      exact (fedCons rfl rest).trans (by simp)
  | (key, v) :: m :: members, _ => by
      rw [memberTokens, List.append_assoc]
      refine (fedCons rfl _).trans ((fedCons rfl _).trans ((valueFed _ _ v).trans ?_))
      refine (fedCons rfl _).trans ?_
      exact (membersFed ((key, v) :: before) above rest (m :: members) (by simp)).trans (by simp)

end

theorem tokensRead (v : Json) : ofTokens v.tokens = some v := by
  have read : v.tokens.foldlM Reader.step (.value []) = some (.done v) := by
    have fed := valueFed [] [] v
    rw [List.append_nil] at fed
    exact fed
  simp only [ofTokens, read, bind, Option.bind]

/-! Between two numbers in the tokens of a value there is a bracket or a comma; so its text can be read
if the numbers are whole. -/

theorem legibleNone : Legible [] := ⟨fun _ member => absurd member List.not_mem_nil, List.isChain_nil⟩

theorem legibleBefore {mark : Token} {ts : List Token} (other : mark.isNumber = false)
    (legible : Legible ts) : Legible (mark :: ts) := by
  refine ⟨?_, List.isChain_cons.mpr ⟨?_, legible.apart⟩⟩
  · intro t member
    rcases List.mem_cons.mp member with same | later
    · rintro n rfl
      rw [← same] at other
      contradiction
    · exact legible.whole t later
  · intro next _ numeral
    rw [other] at numeral
    contradiction

theorem legibleBetween {front ts : List Token} {mark : Token} (other : mark.isNumber = false)
    (first : Legible front) (second : Legible ts) : Legible (front ++ mark :: ts) := by
  have rest := legibleBefore other second
  refine ⟨?_, List.isChain_append.mpr ⟨first.apart, rest.apart, ?_⟩⟩
  · intro t member
    rcases List.mem_append.mp member with early | later
    · exact first.whole t early
    · exact rest.whole t later
  · intro last _ next member _
    cases member
    exact other

theorem legibleNumber {n : Number} (whole : n.tail = []) : Legible (Json.number n).tokens := by
  refine ⟨?_, List.isChain_singleton _⟩
  rintro t member m rfl
  cases List.mem_singleton.mp member
  exact whole

theorem legibleArray {items : List Json} (each : ∀ v ∈ items, Legible v.tokens) :
    Legible (Json.array items).tokens := by
  have inner : Legible (itemTokens items) := by
    induction items with
    | nil => exact legibleBefore rfl legibleNone
    | cons v rest ih =>
      have head := each v List.mem_cons_self
      have tail := ih (fun w inside => each w (List.mem_cons_of_mem _ inside))
      cases rest with
      | nil => exact legibleBetween rfl head legibleNone
      | cons w items => exact legibleBetween rfl head tail
  exact legibleBefore rfl inner

theorem legibleObject {members : List (Option String × Json)}
    (each : ∀ m ∈ members, Legible m.2.tokens) : Legible (Json.object members).tokens := by
  have inner : Legible (memberTokens members) := by
    induction members with
    | nil => exact legibleBefore rfl legibleNone
    | cons m rest ih =>
      have head := each m List.mem_cons_self
      have tail := ih (fun m inside => each m (List.mem_cons_of_mem _ inside))
      cases rest with
      | nil => exact legibleBefore rfl (legibleBefore rfl (legibleBetween rfl head legibleNone))
      | cons next members =>
        exact legibleBefore rfl (legibleBefore rfl (legibleBetween rfl head tail))
  exact legibleBefore rfl inner

theorem parsePrinted {v : Json} (legible : Legible v.tokens) : parse v.render = some v := by
  simp only [parse, render, String.toList_ofList, scanPrinted legible, bind, Option.bind, tokensRead]

end ObjectLayout.Json
