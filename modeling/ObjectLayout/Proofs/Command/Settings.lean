import ObjectLayout.Proofs.Command.Arguments

/-! The settings that the arguments of an invocation come to. Reading with an index that moves by one or
two ends with the same settings as cutting the arguments into items first: each flag that is among the
items, all roots, and of everything else the last. -/
namespace ObjectLayout

namespace Argument

def givenModel? : Argument → Option DataModel
  | .model name => DataModel.ofName? name
  | _ => none

def givenEmit? : Argument → Option Emit
  | .emit name => Emit.ofName? name
  | _ => none

def givenRoot? : Argument → Option String
  | .root name => some name
  | _ => none

def givenCache? : Argument → Option String
  | .cache path => some path
  | _ => none

def givenOutput? : Argument → Option String
  | .output path => some path
  | _ => none

end Argument

namespace Settings

open Argument

/-- What one argument sets, and how many of the next ones it takes. -/
def turn (s : Settings) (arg : String) (next : Option String) : Settings × Nat :=
  if arg = "--chase-raw-pointers" then
    ({ s with options := { s.options with chasePointers := true } }, 0)
  else if arg = "--read-enum-values" then
    ({ s with options := { s.options with readEnumerators := true } }, 0)
  else if let some name := valueOf? "--data-model=" arg then
    match DataModel.ofName? name with
    | some known => ({ s with options := { s.options with model := known } }, 0)
    | none => (s, 0)
  else if let some name := valueOf? "--emit=" arg then
    match Emit.ofName? name with
    | some known => ({ s with emit := known }, 0)
    | none => (s, 0)
  else if let some name := valueOf? "--root=" arg then ({ s with roots := s.roots ++ [name] }, 0)
  else if let some path := valueOf? "--cache=" arg then ({ s with cache := some path }, 0)
  else if let some path := valueOf? "-o=" arg then ({ s with output := some path }, 0)
  else if let some path := valueOf? "--output=" arg then ({ s with output := some path }, 0)
  else if arg = "-o" then
    match next with
    | some path => ({ s with output := some path }, 1)
    | none => (s, 0)
  else (s, 0)

def scan (s : Settings) (args : Array String) (i : Nat) : Settings :=
  if inside : i < args.size then
    let step := s.turn args[i] args[i + 1]?
    scan step.1 args (i + 1 + step.2)
  else s
termination_by args.size - i
decreasing_by omega

theorem turnOther (s : Settings) {arg : String} (other : Unrecognized arg) (next : Option String) :
    s.turn arg next =
      if arg = "-o" then
        match next with
        | some path => (s.apply (.output path), 1)
        | none => (s, 0)
      else (s, 0) := by
  have flag := other.noFlag
  have asked := other.noValue
  simp only [flags, List.forall_mem_cons] at flag
  simp only [keyed, List.forall_mem_cons] at asked
  obtain ⟨chase, read, -⟩ := flag
  obtain ⟨model, emit, root, cache, short, output, -⟩ := asked
  simp only [turn, if_neg chase, if_neg read, model, emit, root, cache, short, output, apply]

theorem turnPath (s : Settings) (path : String) :
    s.turn "-o" (some path) = (s.apply (.output path), 1) := by
  rw [turnOther s dashUnrecognized, if_pos rfl]

theorem turnLast (s : Settings) : s.turn "-o" none = (s, 0) := by
  rw [turnOther s dashUnrecognized, if_pos rfl]

theorem turnPlain (s : Settings) {arg : String} (apart : arg ≠ "-o") (next : Option String) :
    s.turn arg next = (s.apply (ofText arg), 0) := by
  have meant := meantByText arg
  generalize ofText arg = item at meant
  cases meant with
  | flag known =>
    simp only [flags, List.mem_cons, Prod.mk.injEq, List.not_mem_nil, or_false] at known
    rcases known with ⟨rfl, rfl⟩ | ⟨rfl, rfl⟩ <;> simp [turn, apply]
  | @keyed key make known value =>
    have flag := keyedFlag known value
    have asked : ∀ row ∈ keyed,
        valueOf? row.1 (key ++ value) = if row.1 = key then some value else none :=
      fun row also => keyedAsked known also value
    simp only [flags, List.forall_mem_cons] at flag
    simp only [keyed, List.forall_mem_cons] at asked
    obtain ⟨chase, read, -⟩ := flag
    obtain ⟨model, emit, root, cache, short, output, -⟩ := asked
    -- which of the questions is the one that is answered shows for each key in turn
    simp only [turn, if_neg chase, if_neg read, model, emit, root, cache, short, output]
    simp only [keyed, List.mem_cons, Prod.mk.injEq, List.not_mem_nil, or_false] at known
    rcases known with ⟨rfl, rfl⟩ | ⟨rfl, rfl⟩ | ⟨rfl, rfl⟩ | ⟨rfl, rfl⟩ | ⟨rfl, rfl⟩ | ⟨rfl, rfl⟩
    · cases found : DataModel.ofName? value <;> simp [apply, found]
    · cases found : Emit.ofName? value <;> simp [apply, found]
    · simp [apply]
    · simp [apply]
    · simp [apply]
    · simp [apply]
  | unknown other => rw [turnOther s other, if_neg apart, apply]

theorem readNone (s : Settings) : s.read [] = s := rfl

theorem readPlain (s : Settings) {arg : String} (apart : arg ≠ "-o") (rest : List String) :
    s.read (arg :: rest) = (s.apply (ofText arg)).read rest := by
  rw [read, splitPlain apart, List.foldl_cons, read]

theorem readPath (s : Settings) (path : String) (rest : List String) :
    s.read ("-o" :: path :: rest) = (s.apply (.output path)).read rest := by
  rw [read, splitPath, List.foldl_cons, read]

theorem readLast (s : Settings) : s.read ["-o"] = s := by
  rw [read, splitLast, List.foldl_cons, List.foldl_nil, apply]

theorem readAppend (s : Settings) {a : List String} (ready : waits a = false) (b : List String) :
    s.read (a ++ b) = (s.read a).read b := by
  rw [read, splitAppend ready, List.foldl_append, read, read]

/- The index has passed what was read before, so what is left is the arguments from it on. -/
theorem scanReads (s : Settings) (args : Array String) (i : Nat) :
    s.scan args i = s.read (args.toList.drop i) := by
  have behind : ∀ j (inside : j < args.size),
      args.toList.drop j = args[j] :: args.toList.drop (j + 1) :=
    fun j inside => List.drop_eq_getElem_cons (by simpa using inside)
  fun_induction scan s args i with
  | case1 s i inside step ih =>
    rw [ih, behind i inside]
    simp only [step]
    by_cases dash : args[i] = "-o"
    · rw [dash]
      cases next : args[i + 1]? with
      | some path =>
        obtain ⟨more, here⟩ := Array.getElem?_eq_some_iff.mp next
        rw [turnPath, behind (i + 1) more, here, readPath]
      | none =>
        have last : args.toList.drop (i + 1) = [] := by simpa using next
        rw [turnLast, Nat.add_zero, last, readLast, readNone]
    · rw [turnPlain s dash, Nat.add_zero, readPlain s dash]
  | case2 s i outside =>
    have last : args.toList.drop i = [] := by simpa using outside
    rw [last, readNone]

structure Given (s : Settings) (items : List Argument) : Prop where
  chasePointers : s.options.chasePointers = true ↔ .chasePointers ∈ items
  readEnumerators : s.options.readEnumerators = true ↔ .readEnumerators ∈ items
  model : s.options.model = (items.filterMap givenModel?).getLast?.getD .lp64
  emit : s.emit = (items.filterMap givenEmit?).getLast?.getD .outline
  roots : s.roots = items.filterMap givenRoot?
  cache : s.cache = (items.filterMap givenCache?).getLast?
  output : s.output = (items.filterMap givenOutput?).getLast?

theorem flagSet (field : Settings → Bool) {flag : Argument}
    (step : ∀ s item, field (apply s item) = true ↔ item = flag ∨ field s = true)
    (items : List Argument) (s : Settings) :
    field (items.foldl apply s) = true ↔ flag ∈ items ∨ field s = true := by
  induction items generalizing s with
  | nil => simp
  | cons item rest ih =>
    rw [List.foldl_cons, ih, step, List.mem_cons]
    tauto

theorem lastSet {α : Type} (field : Settings → Option α) {given : Argument → Option α}
    (step : ∀ s item, field (apply s item) = (given item).or (field s))
    (items : List Argument) (s : Settings) :
    field (items.foldl apply s) = (items.filterMap given).getLast?.or (field s) := by
  induction items generalizing s with
  | nil => rfl
  | cons item rest ih =>
    rw [List.foldl_cons, ih, step]
    cases here : given item with
    | none => simp [here]
    | some a =>
      cases later : (rest.filterMap given).getLast? <;> simp [here, List.getLast?_cons, later]

theorem rootsSet (items : List Argument) (s : Settings) :
    (items.foldl apply s).roots = s.roots ++ items.filterMap givenRoot? := by
  induction items generalizing s with
  | nil => simp
  | cons item rest ih => cases item <;> simp [ih, apply, givenRoot?, List.filterMap_cons]

theorem givenFold (items : List Argument) : (items.foldl apply standard).Given items where
  chasePointers := by
    have step : ∀ s item, (apply s item).options.chasePointers = true ↔
        item = .chasePointers ∨ s.options.chasePointers = true := by
      intro s item
      cases item <;> simp [apply]
    simpa [standard, Options.standard] using flagSet (·.options.chasePointers) step items standard
  readEnumerators := by
    have step : ∀ s item, (apply s item).options.readEnumerators = true ↔
        item = .readEnumerators ∨ s.options.readEnumerators = true := by
      intro s item
      cases item <;> simp [apply]
    simpa [standard, Options.standard] using flagSet (·.options.readEnumerators) step items standard
  model := by
    have step : ∀ s item, some (apply s item).options.model =
        (givenModel? item).or (some s.options.model) := by
      intro s item
      cases item <;> simp [apply, givenModel?]
    simpa [standard, Options.standard] using lastSet (some ·.options.model) step items standard
  emit := by
    have step : ∀ s item, some (apply s item).emit = (givenEmit? item).or (some s.emit) := by
      intro s item
      cases item <;> simp [apply, givenEmit?]
    simpa [standard] using lastSet (some ·.emit) step items standard
  roots := rootsSet items standard
  cache := by
    have step : ∀ s item, (apply s item).cache = (givenCache? item).or s.cache := by
      intro s item
      cases item <;> simp [apply, givenCache?]
    simpa [standard] using lastSet (·.cache) step items standard
  output := by
    have step : ∀ s item, (apply s item).output = (givenOutput? item).or s.output := by
      intro s item
      cases item <;> simp [apply, givenOutput?]
    simpa [standard] using lastSet (·.output) step items standard

theorem keyedKept {key : String} {make} (known : (key, make) ∈ keyed) {value : String}
    (kept : ∀ s : Settings, s.apply (make value) = s) :
    key ++ value ≠ "-o" ∧ ∀ s : Settings, s.apply (ofText (key ++ value)) = s :=
  ⟨(dashUnrecognized.key key make known value).symm, fun s => keyedText known value ▸ kept s⟩

theorem idleKept {u : String} (idle : Idle u) :
    u ≠ "-o" ∧ ∀ s : Settings, s.apply (ofText u) = s := by
  cases idle with
  | unknown other apart => exact ⟨apart, fun s => by rw [unknownText other, apply]⟩
  | model unknown =>
    have known : ("--data-model=", Argument.model) ∈ keyed := by simp [keyed]
    apply keyedKept known
    intro s
    simp [apply, unknown]
  | emit unknown =>
    have known : ("--emit=", Argument.emit) ∈ keyed := by simp [keyed]
    apply keyedKept known
    intro s
    simp [apply, unknown]

theorem readInserted (s : Settings) {a : List String} (ready : waits a = false) {u : String}
    (idle : Idle u) (b : List String) : s.read (a ++ u :: b) = s.read (a ++ b) := by
  have kept := idleKept idle
  rw [readAppend s ready, readPlain _ kept.1, kept.2, readAppend s ready]

/-- Any list of arguments is cut into items in one way only, a `-o` taking what stands behind it. The
index comes to what the items leave: the flags among them, all roots, the last of the rest. Wherever
the list is cut in two, but behind a `-o` that still takes a path, the second half goes on from what
the first has set, and an idle argument between them changes nothing. -/
theorem argumentsFolded (args : List String) :
    ∃ items, (∀ other, Cut args other ↔ other = items) ∧
      (waits args = true ↔ .unknown "-o" ∈ items) ∧
      (∀ s : Settings, s.scan args.toArray 0 = items.foldl apply s) ∧
      parse args = items.foldl apply standard ∧ (parse args).Given items ∧
      ∀ a b, args = a ++ b → waits a = false →
        parse args = (parse a).read b ∧ ∀ u, Idle u → parse (a ++ u :: b) = parse args := by
  refine ⟨split args, fun _ => cutSplit, waitsCut (cutBySplit args),
    fun s => scanReads s args.toArray 0, rfl, givenFold (split args), ?_⟩
  rintro a b rfl ready
  exact ⟨readAppend standard ready b, fun u idle => readInserted standard ready idle b⟩

/- A `-o` that takes a root, a name that is not known, and a `-o` behind which nothing stands. -/
def swallowing : List String :=
  ["--emit=dot", "-o", "--root=A", "--emit=svg", "--root=B", "-o"]

theorem swallowingFolded :
    (parse swallowing).Given
        [.emit "dot", .output "--root=A", .emit "svg", .root "B", .unknown "-o"] ∧
      parse swallowing =
        (parse ["--emit=dot", "-o", "--root=A"]).read ["--emit=svg", "--root=B", "-o"] ∧
      parse ["--emit=dot", "-o", "--root=A", "--bogus", "--emit=svg", "--root=B", "-o"] =
        parse swallowing := by
  obtain ⟨items, cut, -, -, -, given, halves⟩ := argumentsFolded swallowing
  have known : [.emit "dot", .output "--root=A", .emit "svg", .root "B", .unknown "-o"] = items :=
    (cut _).mp (cutSplit.mpr (by decide))
  have bogus : Idle "--bogus" := .unknown (unrecognizedText (by decide)) (by decide)
  obtain ⟨after, kept⟩ := halves ["--emit=dot", "-o", "--root=A"] ["--emit=svg", "--root=B", "-o"] rfl
    (by decide)
  exact ⟨known ▸ given, after, kept "--bogus" bogus⟩

end Settings
end ObjectLayout
