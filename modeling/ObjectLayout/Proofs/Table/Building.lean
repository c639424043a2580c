import ObjectLayout.Proofs.Table.Handles
import ObjectLayout.Table.Edit

/-! A table that is built by edits alone. Types are added and declarations made and defined, in any
order and also in vain; as long as only handles are passed that earlier edits have given out, the table
passes its check at any time, and each builtin kind has one handle. -/
namespace ObjectLayout.Table

inductive Edit where
  | builtin (kind : Builtin)
  | pointer (pointee : TypeId)
  | reference (pointee : TypeId)
  | array (element : TypeId) (length : UInt64)
  | synonym (form : AliasForm) (name : String) (target : TypeId)
  | sugar (form : SugarForm) (target : TypeId)
  | dependentSpecialization
  | unmodelled (category : Category) (spelling : String)
  | declareRecord (info : RecordInfo)
  | defineRecord (ty : TypeId) (d : RecordDef)
  | declareEnum (name : String)
  | defineEnum (ty : TypeId) (d : EnumDef)
  | addRoot (name : String) (ty : TypeId)

def Edit.uses : Edit → List TypeId
  | .pointer ty | .reference ty | .array ty _ | .synonym _ _ ty | .sugar _ ty | .defineEnum ty _
  | .addRoot _ ty => [ty]
  | .defineRecord ty d => ty :: d.mentions
  | .builtin _ | .dependentSpecialization | .unmodelled _ _ | .declareRecord _ | .declareEnum _ => []

abbrev Reply := Except TableError (Option TypeId)

def Reply.handles : Reply → List TypeId
  | .ok (some ty) => [ty]
  | .ok none | .error _ => []

def giving (made : TypeId × Table) : Reply × Table := (.ok (some made.1), made.2)

def defining (t : Table) : Except TableError Table → Reply × Table
  | .ok made => (.ok none, made)
  | .error e => (.error e, t)

def edit (t : Table) : Edit → Reply × Table
  | .builtin kind => giving (t.builtin kind)
  | .pointer pointee => giving (t.add (.pointer pointee))
  | .reference pointee => giving (t.add (.reference pointee))
  | .array element length => giving (t.add (.array element length))
  | .synonym form name target => giving (t.add (.synonym form name target))
  | .sugar form target => giving (t.add (.sugar form target))
  | .dependentSpecialization => giving (t.add .dependentSpecialization)
  | .unmodelled category spelling => giving (t.push (.unmodelled category) (some spelling))
  | .declareRecord info => giving (t.declareRecord info)
  | .defineRecord ty d => t.defining (t.defineRecord ty d)
  | .declareEnum name => giving (t.declareEnum name)
  | .defineEnum ty d => t.defining (t.defineEnum ty d)
  | .addRoot name ty => (.ok none, t.addRoot name ty)

def run (t : Table) : List Edit → List Reply × Table
  | [] => ([], t)
  | e :: rest => ((t.edit e).1 :: ((t.edit e).2.run rest).1, ((t.edit e).2.run rest).2)

def Proper (t : Table) (handles : List TypeId) : List Edit → Prop
  | [] => True
  | e :: rest =>
      (∀ ty ∈ e.uses, ty ∈ handles) ∧ (t.edit e).2.Proper ((t.edit e).1.handles ++ handles) rest

instance decidableProper : (t : Table) → (handles : List TypeId) → (edits : List Edit) →
    Decidable (t.Proper handles edits)
  | _, _, [] => .isTrue trivial
  | t, handles, e :: rest =>
      have := decidableProper (t.edit e).2 ((t.edit e).1.handles ++ handles) rest
      inferInstanceAs (Decidable (_ ∧ _))

def Names (t : Table) (ty : TypeId) (kind : Builtin) : Prop :=
  ∃ e, t.entry? ty = some e ∧ e.type = .builtin kind

structure Made (t : Table) (handles : List TypeId) : Prop where
  sound : t.Sound
  inside : ∀ ty ∈ handles, ty.raw < t.types.size
  single : ∀ kind a b, t.Names a kind → t.Names b kind → a = b

theorem emptyMade : Made .empty [] := by
  have none : ∀ {ty e}, Table.empty.entry? ty ≠ some e := nofun
  exact ⟨⟨fun found => absurd found none, fun found => absurd found none,
    fun found => absurd found none, nofun⟩, nofun, fun _ _ _ ⟨_, found, _⟩ => absurd found none⟩

variable {t : Table} {handles : List TypeId}

theorem entryPush (t : Table) (type : TypeClass) (spelling : Option String) (ty : TypeId) :
    entry? (t.push type spelling).2 ty =
      if ty.raw = t.types.size then some ⟨type, spelling⟩ else t.entry? ty := by
  simp only [push, entry?, Array.getElem?_push]

theorem sizeTypes (t : Table) (type : TypeClass) (spelling : Option String) :
    (t.push type spelling).2.types.size = t.types.size + 1 := by
  simp only [push, Array.size_push]

structure Backed (t : Table) (type : TypeClass) : Prop where
  wraps : ∀ target, type.wrapped = some target → target.raw < t.types.size
  record : ∀ d, type = .record d → ∃ info definition, t.decl? d = some (.record info definition) ∧
    ∀ x, definition = some x → ∀ m ∈ x.mentions, m.raw < t.types.size
  enum : ∀ d, type = .enum d → ∃ name definition, t.decl? d = some (.enum name definition)

theorem backedPlain {type : TypeClass}
    (wraps : ∀ target, type.wrapped = some target → target.raw < t.types.size)
    (plain : type.declared = none) : Backed t type := by
  refine ⟨wraps, ?_, ?_⟩ <;>
  · rintro d rfl
    contradiction

theorem pushSound (sound : t.Sound) {type : TypeClass} (backed : Backed t type)
    (spelling : Option String) : (t.push type spelling).2.Sound := by
  have size := sizeTypes t type spelling
  have cases : ∀ {ty e}, entry? (t.push type spelling).2 ty = some e →
      (ty.raw = t.types.size ∧ e.type = type) ∨ t.entry? ty = some e := by
    intro ty e found
    rw [entryPush] at found
    split at found
    · rename_i last
      cases found
      exact .inl ⟨last, rfl⟩
    · exact .inr found
  have further : ∀ {x : RecordDef}, (∀ m ∈ x.mentions, m.raw < t.types.size) →
      ∀ m ∈ x.mentions, m.raw < (t.push type spelling).2.types.size :=
    fun inside m member => size ▸ Nat.lt_succ_of_lt (inside m member)
  refine ⟨?_, ?_, ?_, fun root member => size ▸ Nat.lt_succ_of_lt (sound.roots root member)⟩
  · intro ty e target found wraps
    rcases cases found with ⟨last, rfl⟩ | old
    · exact last ▸ backed.wraps target wraps
    · exact sound.wraps old wraps
  · intro ty e d found same
    have held : ∃ info definition, t.decl? d = some (.record info definition) ∧
        ∀ x, definition = some x → ∀ m ∈ x.mentions, m.raw < t.types.size := by
      rcases cases found with ⟨_, rfl⟩ | old
      · exact backed.record d same
      · exact sound.record old same
    obtain ⟨info, definition, at_d, mentions⟩ := held
    exact ⟨info, definition, at_d, fun x defined => further (mentions x defined)⟩
  · intro ty e d found same
    rcases cases found with ⟨_, rfl⟩ | old
    · exact backed.enum d same
    · exact sound.enum old same

theorem namesPush {type : TypeClass} {spelling : Option String} {ty : TypeId} {kind : Builtin} :
    (t.push type spelling).2.Names ty kind ↔
      t.Names ty kind ∨ ty = ⟨t.types.size⟩ ∧ type = .builtin kind := by
  unfold Names
  rw [entryPush]
  split
  · rename_i last
    have here : ty = ⟨t.types.size⟩ := congrArg TypeId.mk last
    have absent : ∀ e, t.entry? ty ≠ some e := fun e found => by
      have inside := entryInRange found
      omega
    constructor
    · rintro ⟨e, found, same⟩
      cases found
      exact .inr ⟨here, same⟩
    · rintro (⟨e, found, _⟩ | ⟨_, same⟩)
      · exact absurd found (absent e)
      · exact ⟨_, rfl, same⟩
  · rename_i other
    constructor
    · exact .inl
    · rintro (old | ⟨rfl, _⟩)
      · exact old
      · exact absurd rfl other

theorem pushMade (made : Made t handles) {type : TypeClass} (backed : Backed t type)
    (fresh : ∀ kind ty, type = .builtin kind → ¬ t.Names ty kind) (spelling : Option String) :
    Made (t.push type spelling).2 ((t.push type spelling).1 :: handles) := by
  have size := sizeTypes t type spelling
  refine ⟨pushSound made.sound backed spelling, ?_, ?_⟩
  · intro ty member
    rcases List.mem_cons.mp member with rfl | old
    · exact size ▸ Nat.lt_succ_self _
    · exact size ▸ Nat.lt_succ_of_lt (made.inside ty old)
  · intro kind a b first second
    rcases namesPush.mp first with old | ⟨rfl, same⟩ <;>
      rcases namesPush.mp second with old' | ⟨rfl, same'⟩
    · exact made.single kind a b old old'
    · exact absurd old (fresh kind a same')
    · exact absurd old' (fresh kind b same)
    · rfl

theorem wrapperMade (made : Made t handles) {type : TypeClass}
    (wraps : ∀ target, type.wrapped = some target → target ∈ handles) (plain : type.declared = none)
    (other : ∀ kind, type ≠ .builtin kind) (spelling : Option String) :
    Made (t.push type spelling).2 ((t.push type spelling).1 :: handles) :=
  pushMade made (backedPlain (fun target wrapped => made.inside target (wraps target wrapped)) plain)
    (fun kind _ same => absurd same (other kind)) spelling

theorem builtinCases (t : Table) (kind : Builtin) :
    (∃ ty, t.builtin kind = (ty, t) ∧ t.Names ty kind) ∨
      t.builtin kind = t.add (.builtin kind) ∧ ∀ ty, ¬ t.Names ty kind := by
  unfold builtin
  split
  · rename_i i found
    obtain ⟨inside, same, _⟩ := Array.findIdx?_eq_some_iff_getElem.mp found
    exact .inl ⟨⟨i⟩, rfl, t.types[i], Array.getElem?_eq_getElem inside, by simpa using same⟩
  · rename_i absent
    refine .inr ⟨rfl, ?_⟩
    rintro ty ⟨e, found, same⟩
    have other := Array.findIdx?_eq_none_iff.mp absent e (Array.mem_of_getElem? found)
    simp [same] at other

theorem builtinNames (t : Table) (kind : Builtin) :
    (t.builtin kind).2.Names (t.builtin kind).1 kind := by
  rcases builtinCases t kind with ⟨ty, same, names⟩ | ⟨same, _⟩ <;> rw [same]
  · exact names
  · exact namesPush.mpr (.inr ⟨rfl, rfl⟩)

theorem builtinMade (made : Made t handles) (kind : Builtin) :
    Made (t.builtin kind).2 ((t.builtin kind).1 :: handles) := by
  rcases builtinCases t kind with ⟨ty, same, names⟩ | ⟨same, absent⟩ <;> rw [same]
  · obtain ⟨e, found, _⟩ := names
    exact ⟨made.sound, List.forall_mem_cons.mpr ⟨entryInRange found, made.inside⟩, made.single⟩
  · refine pushMade made (backedPlain (by nofun) rfl) ?_ none
    intro other ty alike
    cases alike
    exact absent ty

theorem declsSound (sound : t.Sound) {decls : Array Declaration}
    (record : ∀ {d info definition}, t.decl? d = some (.record info definition) →
      ∃ info' definition', decls[d.raw]? = some (.record info' definition') ∧
        ∀ x, definition' = some x →
          definition = some x ∨ ∀ m ∈ x.mentions, m.raw < t.types.size)
    (enum : ∀ {d name definition}, t.decl? d = some (.enum name definition) →
      ∃ name' definition', decls[d.raw]? = some (.enum name' definition')) :
    ({ t with decls := decls } : Table).Sound := by
  refine ⟨sound.wraps, ?_, ?_, sound.roots⟩
  · intro ty e d found same
    obtain ⟨_, _, at_d, mentions⟩ := sound.record found same
    obtain ⟨info, definition, now, defined⟩ := record at_d
    refine ⟨info, definition, now, fun x here => ?_⟩
    rcases defined x here with before | inside
    · exact mentions x before
    · exact inside
  · intro ty e d found same
    obtain ⟨_, _, at_d⟩ := sound.enum found same
    exact enum at_d

theorem declPush {d : DeclId} {x : Declaration} (found : t.decl? d = some x) (y : Declaration) :
    (t.decls.push y)[d.raw]? = some x := by
  obtain ⟨inside, _⟩ := Array.getElem?_eq_some_iff.mp found
  rw [Array.getElem?_push_lt inside]
  exact (Array.getElem?_eq_getElem inside).symm.trans found

theorem declareMade (made : Made t handles) (x : Declaration) :
    Made { t with decls := t.decls.push x } handles :=
  ⟨declsSound made.sound (fun found => ⟨_, _, declPush found x, fun _ defined => .inl defined⟩)
    (fun found => ⟨_, _, declPush found x⟩), made.inside, made.single⟩

theorem declareRecordMade (made : Made t handles) (info : RecordInfo) :
    Made (t.declareRecord info).2 ((t.declareRecord info).1 :: handles) := by
  refine pushMade (declareMade made _) ⟨by nofun, ?_, by nofun⟩ (by nofun) none
  rintro d ⟨⟩
  exact ⟨info, none, Array.getElem?_push_size, nofun⟩

theorem declareEnumMade (made : Made t handles) (name : String) :
    Made (t.declareEnum name).2 ((t.declareEnum name).1 :: handles) := by
  refine pushMade (declareMade made _) ⟨by nofun, by nofun, ?_⟩ (by nofun) none
  rintro d ⟨⟩
  exact ⟨name, none, Array.getElem?_push_size⟩

theorem declSet {decl : DeclId} {old : Declaration} (there : t.decl? decl = some old)
    (y : Declaration) (d : DeclId) :
    (t.decls.setIfInBounds decl.raw y)[d.raw]? = if d = decl then some y else t.decl? d := by
  obtain ⟨inside, _⟩ := Array.getElem?_eq_some_iff.mp there
  split
  · rename_i same
    rw [same, Array.getElem?_setIfInBounds_self_of_lt inside]
  · rename_i distinct
    have apart : decl.raw ≠ d.raw := fun same => distinct (congrArg DeclId.mk same.symm)
    rw [Array.getElem?_setIfInBounds_ne apart]
    rfl

theorem recordSetSound (sound : t.Sound) {decl : DeclId} {info : RecordInfo} {old : Option RecordDef}
    (there : t.decl? decl = some (.record info old)) {d : RecordDef}
    (inside : ∀ m ∈ d.mentions, m.raw < t.types.size) :
    (t.setDecl decl (.record info (some d))).Sound := by
  refine declsSound sound ?_ ?_
  · intro other info' definition found
    rw [declSet there]
    split
    · refine ⟨info, some d, rfl, ?_⟩
      rintro x ⟨⟩
      exact .inr inside
    · exact ⟨info', definition, found, fun _ defined => .inl defined⟩
  · intro other name definition found
    rw [declSet there]
    split
    · rename_i same
      cases (same ▸ found).symm.trans there
    · exact ⟨name, definition, found⟩

theorem enumSetSound (sound : t.Sound) {decl : DeclId} {name : String} {old : Option EnumDef}
    (there : t.decl? decl = some (.enum name old)) (d : EnumDef) :
    (t.setDecl decl (.enum name (some d))).Sound := by
  refine declsSound sound ?_ ?_
  · intro other info definition found
    rw [declSet there]
    split
    · rename_i same
      cases (same ▸ found).symm.trans there
    · exact ⟨info, definition, found, fun _ defined => .inl defined⟩
  · intro other name' definition found
    rw [declSet there]
    split
    · exact ⟨name, some d, rfl⟩
    · exact ⟨name', definition, found⟩

theorem defineRecordCases {ty : TypeId} {d : RecordDef} {made : Table}
    (ended : t.defineRecord ty d = .ok made) : ∃ decl info old,
      t.decl? decl = some (.record info old) ∧ made = t.setDecl decl (.record info (some d)) := by
  unfold defineRecord at ended
  split at ended <;> try contradiction
  split at ended <;> try contradiction
  rename_i info old there
  cases ended
  exact ⟨_, info, old, there, rfl⟩

theorem defineEnumCases {ty : TypeId} {d : EnumDef} {made : Table}
    (ended : t.defineEnum ty d = .ok made) : ∃ decl name old,
      t.decl? decl = some (.enum name old) ∧ made = t.setDecl decl (.enum name (some d)) := by
  unfold defineEnum at ended
  split at ended <;> try contradiction
  split at ended <;> try contradiction
  rename_i name old there
  cases ended
  exact ⟨_, name, old, there, rfl⟩

theorem definingCases {P : Reply × Table → Prop} {answer : Except TableError Table}
    (refused : ∀ e, P (.error e, t)) (defined : ∀ made, answer = .ok made → P (.ok none, made)) :
    P (t.defining answer) := by
  cases answer with
  | error e => exact refused e
  | ok made => exact defined made rfl

theorem editMade (made : Made t handles) (e : Edit) (known : ∀ ty ∈ e.uses, ty ∈ handles) :
    Made (t.edit e).2 ((t.edit e).1.handles ++ handles) := by
  cases e with
  | builtin kind => exact builtinMade made kind
  | pointer ty | reference ty | array ty _ | synonym _ _ ty | sugar _ ty =>
    refine wrapperMade made ?_ rfl (by nofun) none
    rintro target ⟨⟩
    exact known ty (List.mem_singleton_self ty)
  | dependentSpecialization =>
    exact wrapperMade made (by nofun) rfl (by nofun) none
  | unmodelled category spelling =>
    exact wrapperMade made (by nofun) rfl (by nofun) _
  | declareRecord info => exact declareRecordMade made info
  | declareEnum name => exact declareEnumMade made name
  | defineRecord ty d =>
    have inside : ∀ m ∈ d.mentions, m.raw < t.types.size := fun m member =>
      made.inside m (known m (List.mem_cons_of_mem ty member))
    apply definingCases (P := fun r => Made r.2 (r.1.handles ++ handles)) (fun _ => made)
    intro next ended
    obtain ⟨decl, info, old, there, rfl⟩ := defineRecordCases ended
    exact ⟨recordSetSound made.sound there inside, made.inside, made.single⟩
  | defineEnum ty d =>
    apply definingCases (P := fun r => Made r.2 (r.1.handles ++ handles)) (fun _ => made)
    intro next ended
    obtain ⟨decl, name, old, there, rfl⟩ := defineEnumCases ended
    exact ⟨enumSetSound made.sound there d, made.inside, made.single⟩
  | addRoot name ty =>
    have sound := made.sound
    refine ⟨⟨sound.wraps, sound.record, sound.enum, ?_⟩, made.inside, made.single⟩
    intro root member
    rcases List.mem_append.mp member with old | new
    · exact sound.roots root old
    · cases List.mem_singleton.mp new
      exact made.inside ty (known ty (List.mem_singleton_self ty))

theorem runMade (made : Made t handles) {before after : List Edit}
    (proper : t.Proper handles (before ++ after)) : ∃ given, Made (t.run before).2 given := by
  induction before generalizing t handles with
  | nil => exact ⟨handles, made⟩
  | cons e rest ih => exact ih (editMade made e proper.1) proper.2

theorem editTypes (t : Table) (e : Edit) :
    (t.edit e).2.types = t.types ∨ ∃ x, (t.edit e).2.types = t.types.push x := by
  cases e with
  | builtin kind =>
    rcases builtinCases t kind with ⟨_, same, _⟩ | ⟨same, _⟩
    · exact .inl (congrArg (fun made => made.2.types) same)
    · exact .inr ⟨_, congrArg (fun made => made.2.types) same⟩
  | pointer | reference | array | synonym | sugar | dependentSpecialization | unmodelled
  | declareRecord | declareEnum => exact .inr ⟨_, rfl⟩
  | defineRecord ty d =>
    refine .inl (definingCases (P := fun r => r.2.types = t.types) (fun _ => rfl) ?_)
    intro next ended
    obtain ⟨_, _, _, _, rfl⟩ := defineRecordCases ended
    rfl
  | defineEnum ty d =>
    refine .inl (definingCases (P := fun r => r.2.types = t.types) (fun _ => rfl) ?_)
    intro next ended
    obtain ⟨_, _, _, _, rfl⟩ := defineEnumCases ended
    rfl
  | addRoot name ty => exact .inl rfl

theorem editKeeps (t : Table) (e : Edit) {ty : TypeId} {x : TypeEntry} (found : t.entry? ty = some x) :
    entry? (t.edit e).2 ty = some x := by
  unfold entry? at found ⊢
  obtain ⟨inside, _⟩ := Array.getElem?_eq_some_iff.mp found
  rcases editTypes t e with same | ⟨y, same⟩
  · rwa [same]
  · rw [same, Array.getElem?_push_lt inside]
    exact (Array.getElem?_eq_getElem inside).symm.trans found

theorem runKeeps (t : Table) (edits : List Edit) {ty : TypeId} {x : TypeEntry}
    (found : t.entry? ty = some x) : entry? (t.run edits).2 ty = some x := by
  induction edits generalizing t with
  | nil => exact found
  | cons e rest ih => exact ih (t.edit e).2 (editKeeps t e found)

theorem runNames (t : Table) {edits : List Edit} {i : Nat} {kind : Builtin}
    (asked : edits[i]? = some (.builtin kind)) :
    ∃ ty, (t.run edits).1[i]? = some (.ok (some ty)) ∧ (t.run edits).2.Names ty kind := by
  induction edits generalizing t i with
  | nil => contradiction
  | cons e rest ih =>
    cases i with
    | succ i => exact ih (t.edit e).2 asked
    | zero =>
      cases Option.some.inj asked
      obtain ⟨x, found, same⟩ := builtinNames t kind
      exact ⟨(t.builtin kind).1, rfl, x, runKeeps _ rest found, same⟩

theorem editsValid {edits : List Edit} (proper : Proper .empty [] edits) :
    (∀ before, before <+: edits → (empty.run before).2.validate = .ok () ∧
      ∀ kind a b, (empty.run before).2.Names a kind → (empty.run before).2.Names b kind → a = b) ∧
    ∀ kind, ∃ ty, ∀ i : Nat, edits[i]? = some (.builtin kind) →
      (empty.run edits).1[i]? = some (.ok (some ty)) := by
  constructor
  · rintro before ⟨after, rfl⟩
    obtain ⟨_, made⟩ := runMade emptyMade proper
    exact ⟨soundValid made.sound, made.single⟩
  · intro kind
    have whole : Proper .empty [] (edits ++ []) := by rwa [List.append_nil]
    obtain ⟨_, made⟩ := runMade emptyMade whole
    by_cases some : ∃ i : Nat, edits[i]? = some (.builtin kind)
    · obtain ⟨i, asked⟩ := some
      obtain ⟨ty, _, names⟩ := runNames empty asked
      refine ⟨ty, fun j again => ?_⟩
      obtain ⟨other, replied, same⟩ := runNames empty again
      rw [replied, made.single kind other ty same names]
    · exact ⟨⟨0⟩, fun i asked => absurd ⟨i, asked⟩ some⟩

/- A list that refers to itself, defined once before and once after the types of its parts; a definition
for a pointer is refused. -/
def listEdits : List Edit :=
  [.declareRecord ⟨.structKind, "List", "List<Color>", false⟩, .pointer ⟨0⟩, .builtin .int,
   .defineRecord ⟨0⟩ ⟨128, 64, [⟨"value", ⟨2⟩, 0, none⟩, ⟨"next", ⟨1⟩, 64, none⟩], [], [], none⟩,
   .declareEnum "Color", .array ⟨3⟩ 4, .defineRecord ⟨1⟩ ⟨64, 64, [⟨"bad", ⟨2⟩, 0, none⟩], [], [], none⟩,
   .builtin .int, .defineEnum ⟨3⟩ ⟨32, [⟨"red", 0⟩]⟩, .sugar .specialization ⟨4⟩,
   .unmodelled (.other "Auto") "auto", .synonym .usingDecl "Link" ⟨1⟩,
   .defineRecord ⟨0⟩ ⟨192, 64, [⟨"colors", ⟨5⟩, 0, none⟩, ⟨"next", ⟨7⟩, 128, none⟩], [⟨⟨0⟩, 0⟩], [],
     some [.type ⟨3⟩ false, .integral ⟨2⟩ "4"]⟩,
   .addRoot "List" ⟨0⟩, .dependentSpecialization, .builtin .bool, .builtin .int]

theorem listBuilt : Proper .empty [] listEdits ∧ (empty.run listEdits).2.validate = .ok () ∧
    ∃ ty, ∀ i : Nat, listEdits[i]? = some (.builtin .int) →
      (empty.run listEdits).1[i]? = some (.ok (some ty)) := by
  have proper : Proper .empty [] listEdits := by decide +kernel
  obtain ⟨valid, same⟩ := editsValid proper
  exact ⟨proper, (valid listEdits List.prefix_rfl).1, same .int⟩

end ObjectLayout.Table
