import Mathlib.Data.List.Chain
import Mathlib.Tactic.IntervalCases
import ObjectLayout.Json.Printer

/-! The scanner finds in printed text the tokens that were printed. Most tokens end with their last
character. A number does not: it lasts until something comes that cannot belong to it, and so it must
not be followed by another number. -/
namespace ObjectLayout.Json

def Token.Whole (t : Token) : Prop := ∀ n, t = .number n → n.tail = []

def Token.isNumber : Token → Bool
  | .number _ => true
  | _ => false

def Token.Apart (a b : Token) : Prop := a.isNumber = true → b.isNumber = false

structure Legible (ts : List Token) : Prop where
  whole : ∀ t ∈ ts, t.Whole
  apart : ts.IsChain Token.Apart

def Scanner.given (s : Scanner) (text : List Char) : Option Scanner := text.foldlM Scanner.step s

theorem givenCons {s next : Scanner} {c : Char} (step : s.step c = some next) (rest : List Char) :
    s.given (c :: rest) = next.given rest := by
  simp only [Scanner.given, List.foldlM_cons, step]
  rfl

theorem givenAppend {s next : Scanner} {front : List Char} (read : s.given front = some next)
    (rest : List Char) : s.given (front ++ rest) = next.given rest := by
  simp only [Scanner.given] at read ⊢
  rw [List.foldlM_append, read]
  rfl

theorem digitRead {d : Nat} (small : d < 10) : decimalDigit? (Nat.digitChar d) = some d := by
  revert d
  decide

def Scanner.signed (negative : Bool) (tokens : List Token) : Scanner :=
  if negative then ⟨.number ⟨.sign, true, 0, []⟩, tokens⟩ else ⟨.between, tokens⟩

def NumberScan.digits (negative : Bool) (n : Nat) : NumberScan :=
  ⟨if n = 0 then .zero else .whole, negative, n, []⟩

theorem firstDigit {d : Nat} (small : d < 10) (negative : Bool) (tokens : List Token) :
    (Scanner.signed negative tokens).step (Nat.digitChar d) =
      some ⟨.number (.digits negative d), tokens⟩ := by
  cases negative <;> interval_cases d <;> rfl

theorem nextDigit {d n : Nat} (small : d < 10) (nonzero : n ≠ 0) (negative : Bool)
    (tokens : List Token) :
    Scanner.step ⟨.number (.digits negative n), tokens⟩ (Nat.digitChar d) =
      some ⟨.number (.digits negative (n * 10 + d)), tokens⟩ := by
  have more : n * 10 + d ≠ 0 := by omega
  simp only [Scanner.step, NumberScan.next, NumberScan.digits, if_neg nonzero, if_neg more,
    digitRead small]

theorem digitsGiven (n : Nat) (negative : Bool) (tokens : List Token) :
    (Scanner.signed negative tokens).given (Nat.toDigits 10 n) =
      some ⟨.number (.digits negative n), tokens⟩ := by
  induction n using Nat.strongRecOn with
  | ind n ih =>
    by_cases small : n < 10
    · rw [Nat.toDigits_of_lt_base small, givenCons (firstDigit small negative tokens)]
      rfl
    · have less : n / 10 < n := by omega
      have nonzero : n / 10 ≠ 0 := by omega
      have last : n % 10 < 10 := Nat.mod_lt n (by decide)
      rw [Nat.toDigits_of_base_le (by decide) (Nat.not_lt.mp small), givenAppend (ih _ less),
        givenCons (nextDigit last nonzero negative tokens), Nat.div_add_mod']
      rfl

theorem numberGiven {n : Number} (whole : n.tail = []) (tokens : List Token) :
    Scanner.given ⟨.between, tokens⟩ (Token.number n).chars =
      some ⟨.number (.digits n.negative n.whole), tokens⟩ := by
  have digits := digitsGiven n.whole n.negative tokens
  simp only [Token.chars, whole, List.append_nil]
  cases sign : n.negative with
  | false =>
    rw [sign] at digits
    exact digits
  | true =>
    rw [sign] at digits
    exact (givenCons rfl _).trans digits

theorem hexDigitRead {d : Nat} (small : d < 16) : hexDigit? (hexDigit d) = some d := by
  revert d
  decide

def Scanner.within (text : List Char) (tokens : List Token) : Scanner :=
  ⟨.string .plain ⟨text, false, none⟩, tokens⟩

theorem plainGiven {c : Char} (quote : c ≠ '\x22') (escape : c ≠ '\\') (printed : ¬ c.toNat < 0x20)
    (text : List Char) (tokens : List Token) :
    (Scanner.within text tokens).step c = some (.within (c :: text) tokens) := by
  simp only [Scanner.step, Scanner.within, if_neg quote, if_neg escape, if_neg printed]
  rfl

theorem controlGiven {c : Char} (control : c.toNat < 0x20) (text : List Char)
    (tokens : List Token) :
    (Scanner.within text tokens).given
        ['\\', 'u', '0', '0', hexDigit (c.toNat / 16), hexDigit (c.toNat % 16)] =
      some (.within (c :: text) tokens) := by
  have high : c.toNat / 16 < 16 := by omega
  have low : c.toNat % 16 < 16 := by omega
  have unit : StringScan.unit ⟨text, false, none⟩ (c.toNat / 16 * 16 + c.toNat % 16) =
      ⟨c :: text, false, none⟩ := by
    rw [Nat.div_add_mod']
    have below : ¬ (0xD800 ≤ c.toNat ∧ c.toNat < 0xDC00) := by omega
    have above : ¬ (0xDC00 ≤ c.toNat ∧ c.toNat < 0xE000) := by omega
    simp only [StringScan.unit, if_neg below, if_neg above, Char.ofNat_toNat]
  have zero : hexDigit? '0' = some 0 := by decide
  simp [Scanner.given, Scanner.within, Scanner.step, zero, hexDigitRead high, hexDigitRead low, unit]

theorem quotedGiven (c : Char) (text : List Char) (tokens : List Token) :
    (Scanner.within text tokens).given (quoted c) = some (.within (c :: text) tokens) := by
  unfold quoted
  split
  case h_8 quote escape _ _ _ _ _ =>
    split
    · rename_i control
      exact controlGiven control text tokens
    · rename_i printed
      exact givenCons (plainGiven (fun same => quote same) (fun same => escape same) printed _ _) []
  all_goals rfl

theorem textGiven (s text : List Char) (tokens : List Token) :
    (Scanner.within text tokens).given (s.flatMap quoted) =
      some (.within (s.reverse ++ text) tokens) := by
  induction s generalizing text with
  | nil => rfl
  | cons c rest ih =>
    rw [List.flatMap_cons, givenAppend (quotedGiven c text tokens), ih, List.reverse_cons,
      List.append_assoc]
    rfl

theorem stringGiven (s : Option String) (tokens : List Token) :
    Scanner.given ⟨.between, tokens⟩ (Token.string s).chars =
      some ⟨.between, .string s :: tokens⟩ := by
  cases s with
  | none => rfl
  | some s =>
    have opened : Scanner.step ⟨.between, tokens⟩ '\x22' = some (.within [] tokens) := rfl
    have closed : Scanner.step (.within s.toList.reverse tokens) '\x22' =
        some ⟨.between, .string (some s) :: tokens⟩ := by
      simp [Scanner.step, Scanner.within, Scanner.emit, StringScan.token, StringScan.settle]
    have inner := textGiven s.toList [] tokens
    rw [List.append_nil] at inner
    rw [Token.chars, List.cons_append, givenCons opened, givenAppend inner, givenCons closed]
    rfl

/- Where the scanner is when it has been given some tokens, the last of them first. The number that it
was given last is still open. -/
inductive Scanner.After : List Token → Scanner → Prop
  | between (tokens) : After tokens ⟨.between, tokens⟩
  | number {n : NumberScan} (ends : n.part.mayEnd = true) (tokens) :
      After (n.token :: tokens) ⟨.number n, tokens⟩

theorem afterFinishes {tokens : List Token} {s : Scanner} (after : s.After tokens) :
    s.finish = some tokens.reverse := by
  cases after with
  | between => rfl
  | number ends => simp only [Scanner.finish, if_pos ends]

def openers : List Char := ['\x7b', '\x7d', '[', ']', ':', ',', 'n', 't', 'f', '\x22']

theorem openerEnds {n : NumberScan} (ends : n.part.mayEnd = true) {c : Char}
    (opener : c ∈ openers) (tokens : List Token) :
    Scanner.step ⟨.number n, tokens⟩ c = Scanner.step ⟨.between, n.token :: tokens⟩ c := by
  have digits : openers.all (fun c => decimalDigit? c = none) = true := rfl
  have digit : decimalDigit? c = none := by simpa using List.all_eq_true.mp digits c opener
  have next : n.next c = none := by
    obtain ⟨part, negative, whole, tail⟩ := n
    simp only [NumberScan.next, digit]
    revert c
    cases part <;> simp [openers, NumberPart.mayEnd] at ends ⊢
  simp only [Scanner.step, next, ends, digit, and_self, if_true]
  rfl

theorem charsOpen {t : Token} (other : t.isNumber = false) :
    ∃ c rest, t.chars = c :: rest ∧ c ∈ openers := by
  cases t with
  | number n => contradiction
  | bool b => cases b <;> exact ⟨_, _, rfl, by decide⟩
  | string s => cases s <;> exact ⟨_, _, rfl, by decide⟩
  | _ => exact ⟨_, _, rfl, by decide⟩

theorem otherGiven {t : Token} (other : t.isNumber = false) (tokens : List Token) :
    Scanner.given ⟨.between, tokens⟩ t.chars = some ⟨.between, t :: tokens⟩ := by
  cases t with
  | number n => contradiction
  | bool b => cases b <;> rfl
  | string s => exact stringGiven s tokens
  | _ => rfl

theorem tokenGiven {tokens : List Token} {s : Scanner} (after : s.After tokens) {t : Token}
    (whole : t.Whole) (apart : ∀ last ∈ tokens.head?, last.Apart t) :
    ∃ next, s.given t.chars = some next ∧ next.After (t :: tokens) := by
  cases numeral : t.isNumber with
  | false =>
    refine ⟨_, ?_, .between _⟩
    cases after with
    | between => exact otherGiven numeral tokens
    | @number n ends seen =>
      obtain ⟨c, rest, chars, opener⟩ := charsOpen numeral
      have same : Scanner.given ⟨.number n, seen⟩ t.chars =
          Scanner.given ⟨.between, n.token :: seen⟩ t.chars := by
        simp only [chars, Scanner.given, List.foldlM_cons, openerEnds ends opener]
      exact same.trans (otherGiven numeral _)
  | true =>
    cases t with
    | number m =>
      cases after with
      | number ends => exact absurd (apart _ rfl rfl) (by simp [Token.isNumber])
      | between =>
        have tail := whole m rfl
        have token : (NumberScan.digits m.negative m.whole).token = .number m := by
          obtain ⟨negative, n, rest⟩ := m
          have none : rest = [] := tail
          rw [none]
          rfl
        refine ⟨_, numberGiven tail tokens, token ▸ .number ?_ tokens⟩
        simp only [NumberScan.digits]
        split <;> rfl
    | _ => contradiction

theorem tokensGiven {ts seen : List Token} {s : Scanner} (after : s.After seen) (legible : Legible ts)
    (first : ∀ last ∈ seen.head?, ∀ t ∈ ts.head?, last.Apart t) :
    ∃ next, s.given (ts.flatMap Token.chars) = some next ∧ next.After (ts.reverse ++ seen) := by
  induction ts generalizing s seen with
  | nil => exact ⟨s, rfl, after⟩
  | cons t rest ih =>
    obtain ⟨mid, read, after⟩ := tokenGiven after (legible.whole t List.mem_cons_self)
      (fun last member => first last member t rfl)
    obtain ⟨head, tail⟩ := List.isChain_cons.mp legible.apart
    have next : ∀ last ∈ (t :: seen).head?, ∀ b ∈ rest.head?, last.Apart b := by
      intro last member b inside
      cases member
      exact head b inside
    obtain ⟨last, given, done⟩ := ih after
      ⟨fun b inside => legible.whole b (List.mem_cons_of_mem _ inside), tail⟩ next
    refine ⟨last, ?_, ?_⟩
    · rw [List.flatMap_cons, givenAppend read, given]
    · simpa using done

theorem scanPrinted {ts : List Token} (legible : Legible ts) :
    scan (ts.flatMap Token.chars) = some ts := by
  obtain ⟨last, given, after⟩ := tokensGiven (.between []) legible (by simp)
  have finished := afterFinishes after
  rw [List.append_nil, List.reverse_reverse] at finished
  have read : (ts.flatMap Token.chars).foldlM Scanner.step Scanner.start = some last := given
  simp only [scan, read, bind, Option.bind, finished]

end ObjectLayout.Json
