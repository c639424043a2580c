import ObjectLayout.Proofs.Graph.Drawing

/-! Labels of a diagram, as a reader of the dot language takes them. A backslash takes the next character
as it is, and the first quote that is not taken so ends the label. What is read is the label that was
written, whatever characters it has; so no label ends early, and a whole diagram has the labels of its
statements and no other quoted text. -/
namespace ObjectLayout.Diagram

section
open String.Slice String.Slice.Pattern String.Slice.Pattern.Model

def swapped (c : Char) (text : List Char) (d : Char) : List Char := if d = c then text else [d]

variable {c : Char} {s : String.Slice} {start stop : s.Pos} {before between after : String}

theorem sliceBetween (le : start ≤ stop) (first : start.Splits before (between ++ after))
    (last : stop.Splits (before ++ between) after) : (s.slice! start stop).copy = between := by
  obtain ⟨_, same⟩ := copy_slice_eq_iff_splits.mpr ⟨before, after, first, last⟩
  rwa [← slice_eq_slice! (h := le)]

theorem notBetween (first : start.Splits before (between ++ after))
    (last : stop.Splits (before ++ between) after)
    (absent : ∀ pos : s.Pos, start ≤ pos → pos < stop → ¬ MatchesAt c pos) : c ∉ between.toList := by
  intro member
  obtain ⟨left, right, same⟩ := List.append_of_mem member
  have parts : between = String.ofList left ++ (String.singleton c ++ String.ofList right) := by
    rw [← String.toList_inj, same]
    simp
  have whole : s.copy =
      (before ++ String.ofList left) ++ (String.singleton c ++ (String.ofList right ++ after)) := by
    simp only [first.eq_append, parts, String.append_assoc]
  have splits := Pos.splits_ofEqAppend whole
  apply absent (Pos.ofEqAppend whole)
  · exact (first.le_iff_exists_eq_append splits).mpr
      ⟨String.ofList left, rfl, by simp only [parts, String.append_assoc]⟩
  · refine (splits.lt_iff_exists_eq_append last).mpr
      ⟨String.singleton c ++ String.ofList right, ?_, ?_, ?_⟩
    · intro empty
      simpa using congrArg String.toList empty
    · simp only [parts, String.append_assoc]
    · simp only [String.append_assoc]
  · exact Char.matchesAt_iff_splits.mpr ⟨_, _, splits⟩

def replaceStep (r : String) : String → SearchStep s → String
  | sofar, .matched _ _ => sofar ++ r.toSlice
  | sofar, .rejected start stop => sofar ++ s.slice! start stop

theorem replaceSteps {steps : List (SearchStep s)} (valid : IsValidSearchFrom c start steps)
    (here : start.Splits before after) (r sofar : String) :
    (steps.foldl (replaceStep r) sofar).toList =
      sofar.toList ++ after.toList.flatMap (swapped c r.toList) := by
  induction valid generalizing before after sofar with
  | endPos =>
    have empty := here.eq_endPos_iff.mp rfl
    simp [empty]
  | matched found rest ih =>
    obtain ⟨inside, rfl, same⟩ := Char.isLongestMatchAt_iff.mp found
    obtain ⟨tail, rfl⟩ := here.exists_eq_singleton_append inside
    rw [same] at here
    rw [List.foldl_cons, ih here.next]
    simp [swapped, replaceStep, same]
  | @mismatched steps start stop less absent rest ih =>
    obtain ⟨between, _, left, rfl⟩ := (here.lt_iff_exists_eq_append stop.splits).mp less
    have there : stop.Splits (before ++ between) (s.sliceFrom stop).copy := left ▸ stop.splits
    have kept : ∀ d ∈ between.toList, swapped c r.toList d = [d] := by
      intro d member
      have other : d ≠ c := fun equal => notBetween here there absent (equal ▸ member)
      exact if_neg other
    have copied := sliceBetween (Std.le_of_lt less) here there
    rw [List.foldl_cons, ih there]
    simp [replaceStep, String.appendSlice_eq, copied, List.flatMap_congr kept]

theorem replaceChars (text : String) (c : Char) (r : String) :
    (text.replace c r).toList = text.toList.flatMap (swapped c r.toList) := by
  have here : text.toSlice.startPos.Splits "" text := Pos.splits_empty_left_iff.mpr ⟨rfl, by simp⟩
  have valid : IsValidSearchFrom c text.toSlice.startPos
      (ToForwardSearcher.toSearcher c text.toSlice).toList :=
    LawfulToForwardSearcherModel.isValidSearchFrom_toList text.toSlice
  rw [String.replace, String.Slice.replace, ← Std.Iter.foldl_toList]
  exact replaceSteps valid here r ""

end

/- First every backslash, then every quote: the backslashes that the second step adds are not seen by
the first, and those of the first are no quotes. -/
theorem escapeReplaces (label : String) :
    escape label = (label.replace '\\' "\\\\").replace '\x22' "\\\x22" := by
  have each : ∀ c, (swapped '\\' ['\\', '\\'] c).flatMap (swapped '\x22' ['\\', '\x22']) =
      escapeChar c := by
    intro c
    by_cases slash : c = '\\'
    · subst slash
      rfl
    · by_cases quote : c = '\x22'
      · subst quote
        rfl
      · simp [swapped, escapeChar, slash, quote]
  rw [← String.toList_inj, replaceChars, replaceChars, escape, String.toList_ofList,
    List.flatMap_assoc]
  exact congrArg (label.toList.flatMap ·) (funext fun c => (each c).symm)

/- The label that the text begins with, and what follows the quote that ends it. -/
def readLabel : List Char → Option (List Char × List Char)
  | [] => none
  | '\\' :: c :: rest => (readLabel rest).map (fun (label, after) => (c :: label, after))
  | c :: rest =>
      if c = '\x22' then some ([], rest)
      else (readLabel rest).map (fun (label, after) => (c :: label, after))

def closing? : List Char → Option Nat
  | [] => none
  | '\\' :: _ :: rest => (closing? rest).map (· + 2)
  | c :: rest => if c = '\x22' then some 0 else (closing? rest).map (· + 1)

theorem escapeCases (c : Char) :
    escapeChar c = ['\\', c] ∨ escapeChar c = [c] ∧ c ≠ '\\' ∧ c ≠ '\x22' := by
  by_cases special : c = '\\' ∨ c = '\x22'
  · exact .inl (if_pos special)
  · exact .inr ⟨if_neg special, not_or.mp special⟩

theorem readEscaped (label rest : List Char) :
    readLabel (label.flatMap escapeChar ++ '\x22' :: rest) = some (label, rest) := by
  induction label with
  | nil => rfl
  | cons c label ih =>
    rcases escapeCases c with taken | ⟨plain, slash, quote⟩
    · simp [taken, readLabel, ih]
    · simp [plain, readLabel, slash, quote, ih]

theorem closingEscaped (label rest : List Char) :
    closing? (label.flatMap escapeChar ++ '\x22' :: rest) = some (label.flatMap escapeChar).length := by
  induction label with
  | nil => rfl
  | cons c label ih =>
    rcases escapeCases c with taken | ⟨plain, slash, quote⟩
    · simp [taken, closing?, ih]
    · simp [plain, closing?, slash, quote, ih]

theorem escapeInjective : Function.Injective escape := by
  intro a b same
  have chars : a.toList.flatMap escapeChar = b.toList.flatMap escapeChar := String.ofList_injective same
  have first := readEscaped a.toList []
  rw [chars, readEscaped b.toList []] at first
  exact String.toList_inj.mp (congrArg Prod.fst (Option.some.inj first)).symm

/- The quoted texts, where `begun` is what has been read of one that is not at its end. -/
def quotedTexts : Option (List Char) → List Char → List (List Char)
  | _, [] => []
  | some begun, '\\' :: c :: rest => quotedTexts (some (begun ++ [c])) rest
  | some begun, c :: rest =>
      if c = '\x22' then begun :: quotedTexts none rest else quotedTexts (some (begun ++ [c])) rest
  | none, c :: rest => if c = '\x22' then quotedTexts (some []) rest else quotedTexts none rest

def labels (text : String) : List String := (quotedTexts none text.toList).map String.ofList

def Statement.label? : Statement → Option String
  | .vertex _ label => some label
  | .edge _ _ => none

theorem quotedLabel {text label after : List Char} (read : readLabel text = some (label, after))
    (begun : List Char) :
    quotedTexts (some begun) text = (begun ++ label) :: quotedTexts none after := by
  induction text using readLabel.induct generalizing label begun with
  | case1 => contradiction
  | case2 c rest ih =>
    obtain ⟨⟨tail, _⟩, found, same⟩ := Option.map_eq_some_iff.mp read
    cases same
    simp [quotedTexts, ih found]
  | case3 rest =>
    cases read
    simp [quotedTexts]
  | case4 c rest slash quote ih =>
    rw [readLabel, if_neg quote] at read
    · obtain ⟨⟨tail, _⟩, found, same⟩ := Option.map_eq_some_iff.mp read
      cases same
      rw [quotedTexts, if_neg quote, ih found]
      · simp
      · exact slash
    · exact slash

theorem quotedSkips {plain : List Char} (free : '\x22' ∉ plain) (rest : List Char) :
    quotedTexts none (plain ++ rest) = quotedTexts none rest := by
  induction plain with
  | nil => rfl
  | cons c plain ih =>
    have apart := List.ne_and_not_mem_of_not_mem_cons free
    simp [quotedTexts, apart.1.symm, ih apart.2]

theorem digitsUnquoted (n : Nat) : '\x22' ∉ Nat.toDigits 10 n := by
  intro member
  exact absurd (Nat.isDigit_of_mem_toDigits (by decide) (by decide) member) (by decide)

theorem nameUnquoted (v : Vertex) : '\x22' ∉ v.name.toList := by
  rw [nameChars]
  have place : '\x22' ∉ placeChars v.place? := by
    cases v <;> simp [Vertex.place?, placeChars, digitsUnquoted]
  simp [digitsUnquoted, place]

theorem vertexChars (v : Vertex) (label : String) :
    (Statement.vertex v label).text.toList = ("  " ++ v.name ++ " [label=").toList ++
      '\x22' :: (label.toList.flatMap escapeChar ++ '\x22' :: "]\n".toList) := by
  simp [Statement.text, escape, stringText]

theorem statementLabels (line : Statement) (rest : List Char) :
    quotedTexts none (line.text.toList ++ rest) =
      (line.label?.map String.toList).toList ++ quotedTexts none rest := by
  cases line with
  | vertex v label =>
    have free : '\x22' ∉ ("  " ++ v.name ++ " [label=").toList := by
      simp [nameUnquoted]
    have read := readEscaped label.toList ("]\n".toList ++ rest)
    rw [vertexChars, List.append_assoc, quotedSkips free]
    simp only [List.cons_append, List.append_assoc, quotedTexts, if_true]
    rw [quotedLabel read, quotedSkips (by decide)]
    simp [Statement.label?]
  | edge source target =>
    have free : '\x22' ∉ (Statement.edge source target).text.toList := by
      simp [Statement.text, stringText, nameUnquoted]
    rw [quotedSkips free]
    rfl

theorem linesLabels (lines : List Statement) (rest : List Char) :
    quotedTexts none ((String.join (lines.map Statement.text)).toList ++ rest) =
      (lines.filterMap Statement.label?).map String.toList ++ quotedTexts none rest := by
  induction lines with
  | nil => simp
  | cons line lines ih =>
    rw [List.map_cons, String.join_cons, String.toList_append, List.append_assoc, statementLabels, ih]
    cases shown : line.label? <;> simp [shown]

theorem diagramLabels (lines : List Statement) :
    labels ("digraph \x7b\n" ++ String.join (lines.map Statement.text) ++ "\x7d\n") =
      lines.filterMap Statement.label? := by
  have ending : quotedTexts none "\x7d\n".toList = [] := by decide
  simp only [labels, String.toList_append, List.append_assoc]
  rw [quotedSkips (by decide), linesLabels, ending, List.append_nil, List.map_map]
  simp

theorem labelsUnbroken :
    (∀ label, escape label = (label.replace '\\' "\\\\").replace '\x22' "\\\x22") ∧
    (∀ label rest : String,
      closing? (escape label ++ "\x22" ++ rest).toList = some (escape label).length ∧
      readLabel (escape label ++ "\x22" ++ rest).toList = some (label.toList, rest.toList)) ∧
    Function.Injective escape ∧
    ∀ g ids, (print g ids).map labels =
      (statements g ids).map (fun lines => lines.filterMap Statement.label?) := by
  refine ⟨escapeReplaces, fun label rest => ?_, escapeInjective, fun g ids => ?_⟩
  · have chars : (escape label ++ "\x22" ++ rest).toList =
        label.toList.flatMap escapeChar ++ '\x22' :: rest.toList := by
      simp [escape]
    rw [chars, closingEscaped, readEscaped]
    exact ⟨by simp [escape], rfl⟩
  · cases listed : statements g ids with
    | error f => simp [print, listed, bind, Except.bind, Except.map]
    | ok lines =>
      have read := diagramLabels lines
      simp [print, listed, bind, Except.bind, Except.map, read]

example : readLabel ("a\\\\\\\x22b\\\\\x22] [x=\x22".toList) =
    some ("a\\\x22b\\".toList, "] [x=\x22".toList) := by
  decide

end ObjectLayout.Diagram
