import ObjectLayout.Table.Check
import ObjectLayout.Table.Query

/-! What a table that passes its check promises. Its handles resolve and its wrappers lead to
earlier types, so every chain ends and every question about one of its types has an answer. -/
namespace ObjectLayout.Table

structure Sound (t : Table) : Prop where
  wraps : ∀ {ty e target}, t.entry? ty = some e → e.type.wrapped = some target →
    target.raw < ty.raw
  record : ∀ {ty e d}, t.entry? ty = some e → e.type = .record d →
    ∃ info definition, t.decl? d = some (.record info definition) ∧
      ∀ x, definition = some x → ∀ m ∈ x.mentions, m.raw < t.types.size
  enum : ∀ {ty e d}, t.entry? ty = some e → e.type = .enum d →
    ∃ name definition, t.decl? d = some (.enum name definition)
  roots : ∀ root ∈ t.roots, root.ty.raw < t.types.size

theorem eachOk {α ε : Type} {f : α → Except ε Unit} {xs : List α} :
    xs.forM f = .ok () ↔ ∀ x ∈ xs, f x = .ok () := by
  induction xs with
  | nil => simp [pure, Except.pure]
  | cons x xs ih =>
    simp only [List.forM_eq_forM, List.forM_cons, List.mem_cons, forall_eq_or_imp] at ih ⊢
    cases h : f x with
    | error e => simp [bind, Except.bind]
    | ok u => simpa [bind, Except.bind] using ih

theorem handleOk {t : Table} {ty : TypeId} (h : t.checkHandle ty = .ok ()) :
    ty.raw < t.types.size := by
  unfold checkHandle at h
  split at h
  · assumption
  · contradiction

theorem bothOk {ε : Type} {x y : Except ε Unit} (h : (do x; y) = .ok ()) :
    x = .ok () ∧ y = .ok () := by
  cases x with
  | error e => simp [bind, Except.bind] at h
  | ok u => exact ⟨rfl, h⟩

theorem validParts {t : Table} (valid : t.validate = .ok ()) :
    (∀ ty e, t.entry? ty = some e → t.checkType ty e.type = .ok ()) ∧
    ∀ root ∈ t.roots, root.ty.raw < t.types.size := by
  unfold validate at valid
  obtain ⟨types, roots⟩ := bothOk valid
  refine ⟨?_, fun root member => handleOk (eachOk.mp roots root member)⟩
  intro ty e found
  have member : (e, ty.raw) ∈ t.types.toList.zipIdx := by
    rw [List.mk_mem_zipIdx_iff_getElem?, Array.getElem?_toList]
    exact found
  exact eachOk.mp types (e, ty.raw) member

theorem validSound {t : Table} (valid : t.validate = .ok ()) : t.Sound := by
  obtain ⟨types, roots⟩ := validParts valid
  refine ⟨?_, ?_, ?_, roots⟩
  · intro ty e target found wraps
    have ok := types ty e found
    cases h : e.type with
    | record | enum | builtin | dependentSpecialization | unmodelled =>
      simp [h, TypeClass.wrapped] at wraps
    | pointer | reference | array | synonym | sugar =>
      simp only [h, TypeClass.wrapped, Option.some.injEq] at wraps
      subst wraps
      simp only [h, checkType, TypeClass.wrapped] at ok
      split at ok
      · assumption
      · contradiction
  · intro ty e d found same
    have ok := types ty e found
    simp only [same, checkType] at ok
    split at ok <;> try contradiction
    · rename_i info x at_d
      refine ⟨info, some x, at_d, ?_⟩
      intro y sameDef m member
      cases sameDef
      exact handleOk (eachOk.mp ok m member)
    · rename_i info at_d
      exact ⟨info, none, at_d, by simp⟩
  · intro ty e d found same
    have ok := types ty e found
    simp only [same, checkType] at ok
    split at ok <;> try contradiction
    rename_i name definition at_d
    exact ⟨name, definition, at_d⟩

theorem soundValid {t : Table} (sound : t.Sound) : t.validate = .ok () := by
  have both : ∀ {x y : Except TableError Unit}, x = .ok () → y = .ok () → (do x; y) = .ok () := by
    rintro _ _ rfl rfl
    rfl
  unfold validate
  refine both (eachOk.mpr ?_) (eachOk.mpr (fun root member => if_pos (sound.roots root member)))
  rintro ⟨e, i⟩ member
  rw [List.mk_mem_zipIdx_iff_getElem?, Array.getElem?_toList] at member
  have found : t.entry? ⟨i⟩ = some e := member
  have wraps : ∀ target, e.type.wrapped = some target → target.raw < i :=
    fun target => sound.wraps found
  simp only
  cases same : e.type with
  | record d =>
    obtain ⟨info, definition, at_d, mentions⟩ := sound.record found same
    simp only [checkType, at_d]
    cases definition with
    | none => rfl
    | some x => exact eachOk.mpr (fun m member => if_pos (mentions x rfl m member))
  | enum d =>
    obtain ⟨name, definition, at_d⟩ := sound.enum found same
    simp only [checkType, at_d]
  | pointer target | reference target | array target _ | synonym _ _ target | sugar _ target =>
    exact if_pos (wraps target (by rw [same]; rfl))
  | builtin | dependentSpecialization | unmodelled => rfl

theorem entryInRange {t : Table} {ty : TypeId} {e : TypeEntry} (found : t.entry? ty = some e) :
    ty.raw < t.types.size := by
  obtain ⟨inside, _⟩ := Array.getElem?_eq_some_iff.mp found
  exact inside

theorem entryOfRange {t : Table} {ty : TypeId} (inside : ty.raw < t.types.size) :
    ∃ e, t.entry? ty = some e :=
  ⟨t.types[ty.raw], Array.getElem?_eq_getElem inside⟩

theorem entryOk {t : Table} {ty : TypeId} {e : TypeEntry} (found : t.entry? ty = some e) :
    t.entry ty = .ok e := by
  simp [entry, found]

theorem declOk {t : Table} {d : DeclId} {x : Declaration} (found : t.decl? d = some x) :
    t.decl d = .ok x := by
  simp [decl, found]

def Downward (next : TypeEntry → Option TypeId) : Prop :=
  ∀ e inner, next e = some inner → e.type.wrapped = some inner

theorem layoutDownward : Downward layoutNext := by
  intro e inner h
  unfold layoutNext at h
  split at h <;> simp_all [TypeClass.wrapped]

theorem nameDownward : Downward nameNext := by
  intro e inner h
  unfold nameNext at h
  split at h <;> simp_all [TypeClass.wrapped]

/- The fuel of a chain is one more than the number of types, and the handle on the way falls with
every link, so the handle bounds the links that are left. -/
theorem followAnswers {t : Table} (sound : t.Sound) {next} (down : Downward next) {fuel : Nat}
    {ty : TypeId} (inside : ty.raw < t.types.size) (enough : ty.raw < fuel) :
    ∃ c last, t.follow next fuel ty = .ok c ∧ t.entry? last = some c.base ∧ next c.base = none := by
  induction fuel generalizing ty with
  | zero => omega
  | succ fuel ih =>
    obtain ⟨e, found⟩ := entryOfRange inside
    simp only [follow, entryOk found, bind, Except.bind]
    cases step : next e with
    | none => exact ⟨⟨[], e⟩, ty, rfl, found, step⟩
    | some inner =>
      have falls := sound.wraps found (down e inner step)
      obtain ⟨c, last, rest, at_last, done⟩ := ih (Nat.lt_trans falls inside) (by omega)
      simp only [rest]
      exact ⟨⟨e :: c.links, c.base⟩, last, rfl, at_last, done⟩

theorem followStable {t : Table} (sound : t.Sound) {next} (down : Downward next) {fuel other : Nat}
    {ty : TypeId} (a : ty.raw < fuel) (b : ty.raw < other) :
    t.follow next fuel ty = t.follow next other ty := by
  induction fuel generalizing ty other with
  | zero => omega
  | succ fuel ih =>
    cases other with
    | zero => omega
    | succ other =>
      simp only [follow]
      cases found : t.entry? ty with
      | none => simp [entry, found, bind, Except.bind]
      | some e =>
        simp only [entryOk found, bind, Except.bind]
        cases step : next e with
        | none => rfl
        | some inner =>
          have falls := sound.wraps found (down e inner step)
          have rest : t.follow next fuel inner = t.follow next other inner :=
            ih (by omega) (by omega)
          simp only [rest]

theorem chainAnswers {t : Table} (sound : t.Sound) {next} (down : Downward next) {ty : TypeId}
    (inside : ty.raw < t.types.size) :
    ∃ c last, t.chain next ty = .ok c ∧ t.entry? last = some c.base ∧ next c.base = none :=
  followAnswers sound down inside (by omega)

theorem chainStep {t : Table} (sound : t.Sound) {next} (down : Downward next) {ty inner : TypeId}
    {e : TypeEntry} (found : t.entry? ty = some e) (step : next e = some inner) :
    t.chain next ty = (t.chain next inner).map (fun c => ⟨e :: c.links, c.base⟩) := by
  have falls := sound.wraps found (down e inner step)
  have inside := entryInRange found
  have rest : t.follow next t.types.size inner = t.chain next inner :=
    followStable sound down (by omega) (by omega)
  conv => lhs; unfold chain follow
  simp only [entryOk found, bind, Except.bind, step, rest]
  rfl

theorem chainEnd {t : Table} {next} {ty : TypeId} {e : TypeEntry} (found : t.entry? ty = some e)
    (done : next e = none) : t.chain next ty = .ok ⟨[], e⟩ := by
  simp [chain, follow, entryOk found, done, bind, Except.bind]

theorem declOfEntry {t : Table} (sound : t.Sound) {ty : TypeId} {e : TypeEntry} {d : DeclId}
    (found : t.entry? ty = some e) (same : e.type = .record d ∨ e.type = .enum d) :
    ∃ x, t.decl? d = some x := by
  rcases same with same | same
  · obtain ⟨info, definition, at_d, _⟩ := sound.record found same
    exact ⟨_, at_d⟩
  · obtain ⟨name, definition, at_d⟩ := sound.enum found same
    exact ⟨_, at_d⟩

theorem ofRecordDefOk {t : Table} {d : DeclId} {x : Declaration} (found : t.decl? d = some x)
    {α : Type} (missing : α) (part : RecordDef → α) : ∃ a, t.ofRecordDef d missing part = .ok a := by
  cases x with
  | enum name definition => simp [ofRecordDef, recordDef, declOk found, bind, Except.bind]
  | record info definition =>
    cases definition <;> simp [ofRecordDef, recordDef, declOk found, bind, Except.bind]

theorem isDefinedOk {t : Table} {d : DeclId} {x : Declaration} (found : t.decl? d = some x) :
    ∃ b, t.isDefined d = .ok b := by
  cases x <;> simp [isDefined, declOk found, bind, Except.bind]

theorem enumNameOk {t : Table} {d : DeclId} {x : Declaration} (found : t.decl? d = some x) :
    ∃ name, t.enumName d = .ok name := by
  cases x <;> simp [enumName, declOk found, bind, Except.bind]

theorem isCompleteAnswers {t : Table} (sound : t.Sound) {ty : TypeId}
    (inside : ty.raw < t.types.size) : ∃ b, t.isComplete ty = .ok b := by
  obtain ⟨c, last, chained, found, _⟩ := chainAnswers sound layoutDownward inside
  simp only [isComplete, chained, bind, Except.bind]
  split
  · rename_i d same
    obtain ⟨x, at_d⟩ := declOfEntry sound found (.inl same)
    exact isDefinedOk at_d
  · rename_i d same
    obtain ⟨x, at_d⟩ := declOfEntry sound found (.inr same)
    exact isDefinedOk at_d
  · exact ⟨false, rfl⟩
  · exact ⟨true, rfl⟩

theorem displayNameAnswers {t : Table} (sound : t.Sound) {ty : TypeId}
    (inside : ty.raw < t.types.size) : ∃ name, t.displayName ty = .ok name := by
  obtain ⟨c, last, chained, found, _⟩ := chainAnswers sound nameDownward inside
  have based : ∃ base, t.baseName c.base = .ok base := by
    unfold baseName
    split <;> try exact ⟨_, rfl⟩
    · rename_i d _ same
      obtain ⟨x, at_d⟩ := declOfEntry sound found (.inl same)
      cases x <;> simp [declOk at_d, bind, Except.bind]
    · rename_i d _ same
      obtain ⟨x, at_d⟩ := declOfEntry sound found (.inr same)
      exact enumNameOk at_d
  obtain ⟨base, at_base⟩ := based
  exact ⟨c.links.foldr (fun e name => name ++ nameSuffix e) base,
    by simp only [displayName, chained, at_base, bind, Except.bind]⟩

theorem baseSizeOk {t : Table} (sound : t.Sound) {ty : TypeId} {e : TypeEntry}
    (found : t.entry? ty = some e) : ∃ size, t.baseSize e = .ok size := by
  unfold baseSize
  split <;> try exact ⟨_, rfl⟩
  · rename_i d same
    obtain ⟨x, at_d⟩ := declOfEntry sound found (.inl same)
    exact ofRecordDefOk at_d 0 RecordDef.sizeBits
  · rename_i d same
    obtain ⟨name, definition, at_d⟩ := sound.enum found same
    cases definition <;> simp [enumDef, declOk at_d, bind, Except.bind]

theorem sizeInBitsAnswers {t : Table} (sound : t.Sound) {ty : TypeId}
    (inside : ty.raw < t.types.size) : ∃ size, t.sizeInBits ty = .ok size := by
  obtain ⟨c, last, chained, found, _⟩ := chainAnswers sound layoutDownward inside
  obtain ⟨size, at_base⟩ := baseSizeOk sound found
  exact ⟨c.links.foldr scaleSize size,
    by simp only [sizeInBits, chained, at_base, bind, Except.bind]⟩

theorem alignInBitsAnswers {t : Table} (sound : t.Sound) {ty : TypeId}
    (inside : ty.raw < t.types.size) : ∃ align, t.alignInBits ty = .ok align := by
  obtain ⟨c, last, chained, found, _⟩ := chainAnswers sound layoutDownward inside
  simp only [alignInBits, chained, bind, Except.bind, baseAlign]
  split <;> try exact ⟨_, rfl⟩
  · rename_i d same
    obtain ⟨x, at_d⟩ := declOfEntry sound found (.inl same)
    exact ofRecordDefOk at_d 0 RecordDef.alignBits
  · exact baseSizeOk sound found

theorem completeRecord {t : Table} (sound : t.Sound) {ty : TypeId} {e : TypeEntry} {d : DeclId}
    (found : t.entry? ty = some e) (same : e.type = .record d)
    (defined : t.isComplete ty = .ok true) :
    ∃ info x, t.decl? d = some (.record info (some x)) ∧
      ∀ m ∈ x.mentions, m.raw < t.types.size := by
  obtain ⟨info, definition, at_d, mentions⟩ := sound.record found same
  have done : layoutNext e = none := by simp [layoutNext, same]
  cases definition with
  | none =>
    simp [isComplete, chainEnd found done, same, isDefined, declOk at_d, bind, Except.bind] at defined
  | some x => exact ⟨info, x, at_d, mentions x rfl⟩

theorem completeEnum {t : Table} (sound : t.Sound) {ty : TypeId} {e : TypeEntry} {d : DeclId}
    (found : t.entry? ty = some e) (same : e.type = .enum d)
    (defined : t.isComplete ty = .ok true) :
    ∃ name x, t.decl? d = some (.enum name (some x)) := by
  obtain ⟨name, definition, at_d⟩ := sound.enum found same
  have done : layoutNext e = none := by simp [layoutNext, same]
  cases definition with
  | none =>
    simp [isComplete, chainEnd found done, same, isDefined, declOk at_d, bind, Except.bind] at defined
  | some x => exact ⟨name, x, at_d⟩

theorem completeStep {t : Table} (sound : t.Sound) {ty inner : TypeId} {e : TypeEntry}
    (found : t.entry? ty = some e) (step : layoutNext e = some inner) :
    t.isComplete ty = t.isComplete inner := by
  simp only [isComplete, chainStep sound layoutDownward found step]
  cases t.chain layoutNext inner <;> rfl

theorem sugarComplete {t : Table} (sound : t.Sound) {ty inner : TypeId} {e : TypeEntry}
    (found : t.entry? ty = some e) (step : e.type.sugarTarget = some inner) :
    t.isComplete ty = t.isComplete inner := by
  have next : layoutNext e = some inner := by
    unfold TypeClass.sugarTarget at step
    split at step
    · rename_i same
      simpa [layoutNext, same] using step
    · contradiction
  exact completeStep sound found next

theorem plainComplete {t : Table} {ty : TypeId} {e : TypeEntry} (found : t.entry? ty = some e)
    (done : layoutNext e = none) (noRecord : ∀ d, e.type ≠ .record d) (noEnum : ∀ d, e.type ≠ .enum d)
    (sized : e.type ≠ .unmodelled .incompleteArray) : t.isComplete ty = .ok true := by
  simp only [isComplete, chainEnd found done, bind, Except.bind]

end ObjectLayout.Table
