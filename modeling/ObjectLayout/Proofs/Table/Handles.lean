import ObjectLayout.Proofs.Table.Resolution

/-! The handles that a table gives out. Whoever starts at a type or an export of a table that is in
order, and asks on about what the answers name, never holds a handle that is out of range, and has an
answer to every question. -/
namespace ObjectLayout

def TypeClass.declared : TypeClass → Option DeclId
  | .record d | .enum d => some d
  | _ => none

namespace Table

inductive Obtained (t : Table) : TypeId → Prop
  | type {ty} (inside : ty.raw < t.types.size) : Obtained t ty
  | root {root} (exported : root ∈ t.roots) : Obtained t root.ty
  | wrapped {ty e target} (before : Obtained t ty) (entry : t.entry ty = .ok e)
      (wraps : e.type.wrapped = some target) : Obtained t target
  | field {ty e d fields f} (before : Obtained t ty) (entry : t.entry ty = .ok e)
      (decl : e.type.declared = some d) (answer : t.fields d = .ok fields) (member : f ∈ fields) :
      Obtained t f.ty
  | base {ty e d bases b} (before : Obtained t ty) (entry : t.entry ty = .ok e)
      (decl : e.type.declared = some d) (answer : t.bases d = .ok bases) (member : b ∈ bases) :
      Obtained t b.ty
  | argument {ty e d args arg target} (before : Obtained t ty) (entry : t.entry ty = .ok e)
      (decl : e.type.declared = some d) (answer : t.templateArgs d = .ok (some args))
      (member : arg ∈ args) (type : arg.type? = some target) : Obtained t target

structure DeclAnswers (t : Table) (d : DeclId) : Prop where
  info : ∃ info, t.recordInfo d = .ok info
  fields : ∃ fields, t.fields d = .ok fields
  bases : ∃ bases, t.bases d = .ok bases
  methods : ∃ methods, t.methods d = .ok methods
  args : ∃ args, t.templateArgs d = .ok args
  name : ∃ name, t.enumName d = .ok name
  enumerators : ∃ enumerators, t.enumerators d = .ok enumerators

structure TypeAnswers (t : Table) (ty : TypeId) : Prop where
  complete : ∃ complete, t.isComplete ty = .ok complete
  name : ∃ name, t.displayName ty = .ok name
  size : ∃ size, t.sizeInBits ty = .ok size
  align : ∃ align, t.alignInBits ty = .ok align
  layoutEnds : ∀ room, ty.raw < room → t.follow layoutNext room ty = t.chain layoutNext ty
  nameEnds : ∀ room, ty.raw < room → t.follow nameNext room ty = t.chain nameNext ty

structure Classified (t : Table) (ty : TypeId) (e : TypeEntry) : Prop where
  entry : t.entry ty = .ok e
  record : ∀ d, e.type = .record d → ∃ info definition, t.decl d = .ok (.record info definition)
  enum : ∀ d, e.type = .enum d → ∃ name definition, t.decl d = .ok (.enum name definition)
  decl : ∀ d, e.type.declared = some d → DeclAnswers t d

variable {t : Table}

theorem declaredCases {type : TypeClass} {d : DeclId} (decl : type.declared = some d) :
    type = .record d ∨ type = .enum d := by
  cases type <;> cases decl
  · exact .inl rfl
  · exact .inr rfl

theorem entryFound {ty : TypeId} {e : TypeEntry} (entry : t.entry ty = .ok e) :
    t.entry? ty = some e := by
  unfold Table.entry at entry
  split at entry
  · cases entry
    assumption
  · contradiction

theorem ofRecordDefCases {α : Type} {d : DeclId} {missing a : α} {part : RecordDef → α}
    (answer : t.ofRecordDef d missing part = .ok a) :
    a = missing ∨ ∃ info x, t.decl? d = some (.record info (some x)) ∧ a = part x := by
  cases found : t.decl? d with
  | none => simp [ofRecordDef, recordDef, decl, found, bind, Except.bind] at answer
  | some x =>
    simp only [ofRecordDef, recordDef, declOk found, bind, Except.bind] at answer
    cases x with
    | enum name definition =>
      cases answer
      exact .inl rfl
    | record info definition =>
      cases definition with
      | none =>
        cases answer
        exact .inl rfl
      | some x =>
        cases answer
        exact .inr ⟨info, x, rfl, rfl⟩

/- What a definition mentions is checked where a type leads to the definition, and the questions about
a declaration can only be asked where a type has led to it. -/
theorem definitionInside (sound : t.Sound) {ty : TypeId} {e : TypeEntry} {d : DeclId}
    (entry : t.entry ty = .ok e) (decl : e.type.declared = some d) {info : RecordInfo} {x : RecordDef}
    (found : t.decl? d = some (.record info (some x))) {target : TypeId} (held : target ∈ x.mentions) :
    target.raw < t.types.size := by
  rcases declaredCases decl with same | same
  · obtain ⟨_, definition, at_d, mentions⟩ := sound.record (entryFound entry) same
    cases found.symm.trans at_d
    exact mentions x rfl target held
  · obtain ⟨name, definition, at_d⟩ := sound.enum (entryFound entry) same
    cases found.symm.trans at_d

theorem obtainedInside (sound : t.Sound) {ty : TypeId} (obtained : Obtained t ty) :
    ty.raw < t.types.size := by
  induction obtained with
  | type inside => exact inside
  | root exported => exact sound.roots _ exported
  | wrapped before entry wraps ih => exact Nat.lt_trans (sound.wraps (entryFound entry) wraps) ih
  | field before entry decl answer member ih =>
    rcases ofRecordDefCases answer with rfl | ⟨info, x, found, rfl⟩
    · contradiction
    · exact definitionInside sound entry decl found (RecordDef.mentionsField member)
  | base before entry decl answer member ih =>
    rcases ofRecordDefCases answer with rfl | ⟨info, x, found, rfl⟩
    · contradiction
    · exact definitionInside sound entry decl found (RecordDef.mentionsBase member)
  | argument before entry decl answer member type ih =>
    rcases ofRecordDefCases answer with same | ⟨info, x, found, same⟩
    · contradiction
    · refine definitionInside sound entry decl found (RecordDef.mentionsArgument ?_ type)
      rw [← same]
      exact member

theorem declAnswers {d : DeclId} {x : Declaration} (found : t.decl? d = some x) : DeclAnswers t d where
  info := by cases x <;> simp [recordInfo, declOk found, bind, Except.bind]
  fields := ofRecordDefOk found _ _
  bases := ofRecordDefOk found _ _
  methods := ofRecordDefOk found _ _
  args := ofRecordDefOk found _ _
  name := enumNameOk found
  enumerators := by
    cases x with
    | record info definition => simp [enumerators, enumDef, declOk found, bind, Except.bind]
    | enum name definition =>
      cases definition <;> simp [enumerators, enumDef, declOk found, bind, Except.bind]

theorem typeAnswers (sound : t.Sound) {ty : TypeId} (inside : ty.raw < t.types.size) :
    TypeAnswers t ty where
  complete := isCompleteAnswers sound inside
  name := displayNameAnswers sound inside
  size := sizeInBitsAnswers sound inside
  align := alignInBitsAnswers sound inside
  layoutEnds := fun _ enough => followStable sound layoutDownward enough (by omega)
  nameEnds := fun _ enough => followStable sound nameDownward enough (by omega)

theorem classified (sound : t.Sound) {ty : TypeId} (inside : ty.raw < t.types.size) :
    ∃ e, Classified t ty e := by
  obtain ⟨e, found⟩ := entryOfRange inside
  refine ⟨e, entryOk found, ?_, ?_, ?_⟩
  · intro d same
    obtain ⟨info, definition, at_d, _⟩ := sound.record found same
    exact ⟨info, definition, declOk at_d⟩
  · intro d same
    obtain ⟨name, definition, at_d⟩ := sound.enum found same
    exact ⟨name, definition, declOk at_d⟩
  · intro d decl
    obtain ⟨x, at_d⟩ := declOfEntry sound found (declaredCases decl)
    exact declAnswers at_d

theorem validSafe (valid : t.validate = .ok ()) :
    (∀ ty, Obtained t ty → ty.raw < t.types.size) ∧
      ∀ ty, ty.raw < t.types.size → TypeAnswers t ty ∧ ∃ e, Classified t ty e := by
  have sound := validSound valid
  exact ⟨fun _ obtained => obtainedInside sound obtained,
    fun _ inside => ⟨typeAnswers sound inside, classified sound inside⟩⟩

/- A list whose cells mention later types, with an enum for a parameter and a base. -/
def listTable : Table where
  types := #[⟨.record ⟨0⟩, none⟩, ⟨.pointer ⟨0⟩, none⟩, ⟨.sugar .elaborated ⟨1⟩, some "Link"⟩,
    ⟨.enum ⟨1⟩, none⟩, ⟨.array ⟨3⟩ 4, none⟩, ⟨.record ⟨2⟩, none⟩,
    ⟨.unmodelled .incompleteArray, none⟩]
  decls := #[
    .record ⟨.structKind, "List", "List<Color>", false⟩
      (some ⟨320, 64, [⟨"next", ⟨2⟩, 64, none⟩, ⟨"colors", ⟨4⟩, 128, none⟩, ⟨"rest", ⟨6⟩, 320, none⟩],
        [⟨⟨5⟩, 0⟩], [], some [.type ⟨3⟩ false]⟩),
    .enum "Color" (some ⟨32, [⟨"red", 0⟩]⟩),
    .record ⟨.structKind, "Counted", "Counted", false⟩ (some ⟨64, 64, [], [], [], none⟩)]
  roots := [⟨"List", ⟨0⟩⟩]

theorem listSafe : listTable.validate = .ok () ∧
    (∀ ty, Obtained listTable ty → ty.raw < listTable.types.size) ∧
      ∀ ty, ty.raw < listTable.types.size →
        TypeAnswers listTable ty ∧ ∃ e, Classified listTable ty e :=
  have valid : listTable.validate = .ok () := rfl
  ⟨valid, validSafe valid⟩

end Table
end ObjectLayout
