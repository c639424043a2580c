import Mathlib.Algebra.BigOperators.Group.List.Basic
import ObjectLayout.Proofs.Table.Resolution

/-! Layout seen through wrappers. A type that stands over another by aliases, sugar and arrays is as
complete as that one, and aligned as it is; its size is as many times the size of the other as the
arrays on the way say, or the greatest of all sizes where that is less. -/
namespace ObjectLayout.Table

/-- A type that stands over a base. On the way are aliases, sugar and arrays of these lengths, the
outermost first. -/
inductive Over (t : Table) : TypeId → List UInt64 → TypeId → Prop
  | base {ty e} (found : t.entry? ty = some e) : Over t ty [] ty
  | synonym {ty e form name target lengths base} (found : t.entry? ty = some e)
      (same : e.type = .synonym form name target) (rest : Over t target lengths base) :
      Over t ty lengths base
  | sugar {ty e form target lengths base} (found : t.entry? ty = some e)
      (same : e.type = .sugar form target) (rest : Over t target lengths base) :
      Over t ty lengths base
  | array {ty e element length lengths base} (found : t.entry? ty = some e)
      (same : e.type = .array element length) (rest : Over t element lengths base) :
      Over t ty (length :: lengths) base

def greatest : Nat := UInt64.size - 1

def repeats (lengths : List UInt64) : Nat := (lengths.map UInt64.toNat).prod

theorem saturatingProduct (a b : UInt64) :
    (saturatingMul a b).toNat = min greatest (a.toNat * b.toNat) := by
  unfold saturatingMul greatest
  split
  · rename_i fits
    rw [UInt64.toNat_mul, Nat.mod_eq_of_lt fits, Nat.min_eq_right (Nat.le_sub_one_of_lt fits)]
  · rename_i exceeds
    rw [Nat.min_eq_left (Nat.le_trans (Nat.sub_le _ 1) (Nat.not_lt.mp exceeds))]
    rfl

/- A product that has been cut off is multiplied on as if it had not: nothing is lost but where it is
cut off again, and a length of zero makes nothing of either. -/
theorem saturatedOnce (most n length : Nat) : min most (min most n * length) = min most (n * length) := by
  rcases Nat.le_total n most with below | above
  · rw [Nat.min_eq_right below]
  · rw [Nat.min_eq_left above]
    rcases Nat.eq_zero_or_pos length with rfl | some
    · rw [Nat.mul_zero, Nat.mul_zero]
    · have first : most ≤ most * length := Nat.le_mul_of_pos_right most some
      rw [Nat.min_eq_left first, Nat.min_eq_left (Nat.le_trans first (Nat.mul_le_mul_right _ above))]

variable {t : Table}

section
variable (sound : t.Sound) {ty inner : TypeId} {e : TypeEntry} (found : t.entry? ty = some e)
  (step : layoutNext e = some inner)
include sound found step

theorem sizeStep : t.sizeInBits ty = (t.sizeInBits inner).map (scaleSize e) := by
  simp only [sizeInBits, chainStep sound layoutDownward found step]
  cases t.chain layoutNext inner with
  | error f => rfl
  | ok c =>
    simp only [Except.map, bind, Except.bind]
    cases t.baseSize c.base <;> rfl

theorem alignStep : t.alignInBits ty = t.alignInBits inner := by
  simp only [alignInBits, chainStep sound layoutDownward found step]
  cases t.chain layoutNext inner <;> rfl

end

variable {ty base : TypeId} {lengths : List UInt64}

theorem sizeOver (sound : t.Sound) (stands : t.Over ty lengths base) :
    ∃ size total, t.sizeInBits base = .ok size ∧ t.sizeInBits ty = .ok total ∧
      total.toNat = min greatest (size.toNat * repeats lengths) := by
  induction stands with
  | base found =>
    obtain ⟨size, sized⟩ := sizeInBitsAnswers sound (entryInRange found)
    refine ⟨size, size, sized, sized, ?_⟩
    rw [repeats, List.map_nil, List.prod_nil, Nat.mul_one]
    exact (Nat.min_eq_right (Nat.le_sub_one_of_lt size.toNat_lt)).symm
  | @synonym ty e _ _ target _ _ found same rest ih | @sugar ty e _ target _ _ found same rest ih =>
    obtain ⟨size, total, based, sized, cut⟩ := ih
    have step : layoutNext e = some target := by rw [layoutNext, same]
    have unscaled : scaleSize e total = total := by rw [scaleSize, same]
    exact ⟨size, total, based, by rw [sizeStep sound found step, sized, Except.map, unscaled], cut⟩
  | @array ty e element length lengths base found same rest ih =>
    obtain ⟨size, total, based, sized, cut⟩ := ih
    have step : layoutNext e = some element := by rw [layoutNext, same]
    have scaled : scaleSize e total = saturatingMul total length := by rw [scaleSize, same]
    have product : repeats (length :: lengths) = repeats lengths * length.toNat :=
      Nat.mul_comm _ _
    refine ⟨size, saturatingMul total length, based, ?_, ?_⟩
    · rw [sizeStep sound found step, sized, Except.map, scaled]
    · rw [saturatingProduct, cut, saturatedOnce, product, Nat.mul_assoc]

theorem overInside (stands : t.Over ty lengths base) : base.raw < t.types.size := by
  induction stands with
  | base found => exact entryInRange found
  | synonym found same rest ih | sugar found same rest ih | array found same rest ih => exact ih

theorem passedOver {α : Type} (question : TypeId → Except Fault α)
    (passes : ∀ {ty inner e}, t.entry? ty = some e → layoutNext e = some inner →
      question ty = question inner) (stands : t.Over ty lengths base) : question ty = question base := by
  induction stands with
  | base found => rfl
  | synonym found same rest ih | sugar found same rest ih | array found same rest ih =>
    exact (passes found (by rw [layoutNext, same])).trans ih

theorem overPlain (sound : t.Sound) (inside : ty.raw < t.types.size) :
    ∃ lengths base e, t.Over ty lengths base ∧ t.entry? base = some e ∧ layoutNext e = none := by
  induction at_ty : ty.raw using Nat.strongRecOn generalizing ty with
  | _ n ih =>
    obtain ⟨e, found⟩ := entryOfRange inside
    have below : ∀ inner, e.type.wrapped = some inner → ∃ lengths base last,
        t.Over inner lengths base ∧ t.entry? base = some last ∧ layoutNext last = none := by
      intro inner wraps
      have falls := sound.wraps found wraps
      exact ih inner.raw (at_ty ▸ falls) (Nat.lt_trans falls inside) rfl
    cases same : e.type with
    | synonym form name target =>
      obtain ⟨lengths, base, last, stands, ends⟩ := below target (by rw [same]; rfl)
      exact ⟨lengths, base, last, .synonym found same stands, ends⟩
    | sugar form target =>
      obtain ⟨lengths, base, last, stands, ends⟩ := below target (by rw [same]; rfl)
      exact ⟨lengths, base, last, .sugar found same stands, ends⟩
    | array element length =>
      obtain ⟨lengths, base, last, stands, ends⟩ := below element (by rw [same]; rfl)
      exact ⟨length :: lengths, base, last, .array found same stands, ends⟩
    | _ => exact ⟨[], ty, e, .base found, found, by rw [layoutNext, same]⟩

theorem layoutOver (valid : t.validate = .ok ()) (inside : ty.raw < t.types.size) :
    (∃ lengths base e, t.Over ty lengths base ∧ t.entry? base = some e ∧ layoutNext e = none) ∧
      ∀ lengths base, t.Over ty lengths base →
        (∃ size total, t.sizeInBits base = .ok size ∧ t.sizeInBits ty = .ok total ∧
          total.toNat = min greatest (size.toNat * repeats lengths)) ∧
        (∃ align, t.alignInBits base = .ok align ∧ t.alignInBits ty = .ok align) ∧
        ∃ complete, t.isComplete base = .ok complete ∧ t.isComplete ty = .ok complete := by
  have sound := validSound valid
  refine ⟨overPlain sound inside, fun lengths base stands => ⟨sizeOver sound stands, ?_, ?_⟩⟩
  · obtain ⟨align, aligned⟩ := alignInBitsAnswers sound (overInside stands)
    have same := passedOver t.alignInBits (alignStep sound) stands
    exact ⟨align, aligned, same.trans aligned⟩
  · obtain ⟨complete, defined⟩ := isCompleteAnswers sound (overInside stands)
    have same := passedOver t.isComplete (completeStep sound) stands
    exact ⟨complete, defined, same.trans defined⟩

/- Arrays of an alias of arrays of numbers: the inner two hold more bits than can be counted, one more
holds none of them. -/
def towerTable : Table where
  types := #[⟨.builtin .int, none⟩, ⟨.array ⟨0⟩ 4611686018427387904, none⟩,
    ⟨.synonym .usingDecl "Block" ⟨1⟩, none⟩, ⟨.sugar .elaborated ⟨2⟩, none⟩, ⟨.array ⟨3⟩ 3, none⟩,
    ⟨.array ⟨4⟩ 0, none⟩, ⟨.synonym .typedefDecl "Void" ⟨5⟩, none⟩]
  decls := #[]
  roots := [⟨"Void", ⟨6⟩⟩]

theorem towerOver : towerTable.Over ⟨6⟩ [0, 3, 4611686018427387904] ⟨0⟩ ∧
    towerTable.Over ⟨4⟩ [3, 4611686018427387904] ⟨0⟩ := by
  have inner : towerTable.Over ⟨4⟩ [3, 4611686018427387904] ⟨0⟩ :=
    .array rfl rfl (.sugar rfl rfl (.synonym rfl rfl (.array rfl rfl (.base rfl))))
  exact ⟨.synonym rfl rfl (.array rfl rfl inner), inner⟩

theorem towerLayout : towerTable.validate = .ok () ∧
    (∃ size total, towerTable.sizeInBits ⟨0⟩ = .ok size ∧ towerTable.sizeInBits ⟨6⟩ = .ok total ∧
      total.toNat = min greatest (size.toNat * repeats [0, 3, 4611686018427387904])) ∧
    ∃ size total, towerTable.sizeInBits ⟨0⟩ = .ok size ∧ towerTable.sizeInBits ⟨4⟩ = .ok total ∧
      total.toNat = min greatest (size.toNat * repeats [3, 4611686018427387904]) :=
  have valid : towerTable.validate = .ok () := rfl
  have outer : (⟨6⟩ : TypeId).raw < towerTable.types.size := by decide
  have middle : (⟨4⟩ : TypeId).raw < towerTable.types.size := by decide
  ⟨valid, ((layoutOver valid outer).2 _ _ towerOver.1).1,
    ((layoutOver valid middle).2 _ _ towerOver.2).1⟩

example : towerTable.sizeInBits ⟨6⟩ = .ok 0 ∧ towerTable.sizeInBits ⟨4⟩ = .ok 18446744073709551615 :=
  ⟨rfl, rfl⟩

end ObjectLayout.Table
