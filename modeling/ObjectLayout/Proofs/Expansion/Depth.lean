import Mathlib.Data.Finset.Card
import Mathlib.Logic.Relation
import ObjectLayout.Proofs.Expansion.Balance

/-! How deep an expansion goes. What is open at a time is a row of types, each inside the one before:
wrappers down to a record, wrappers from a part of it down to the next record, and so on. A record is
open once, since it is known as soon as it is entered, and the wrappers above it lead to no other, so
all that is open down to the last record are different types. The wrappers after that one are different
among themselves, and may be open further up as well. -/
namespace ObjectLayout

namespace Table

def Wraps (t : Table) (ty target : TypeId) : Prop :=
  ∃ e, t.entry? ty = some e ∧ e.type.wrapped = some target

theorem wrapsUnique (t : Table) : Relator.RightUnique t.Wraps := by
  rintro ty a b ⟨e, found, first⟩ ⟨e', found', second⟩
  cases found.symm.trans found'
  exact Option.some.inj (first.symm.trans second)

theorem wrapsInside {t : Table} {ty target : TypeId} (wraps : Relation.TransGen t.Wraps ty target) :
    ty.raw < t.types.size := by
  obtain ⟨next, ⟨e, found, _⟩, _⟩ := Relation.TransGen.head'_iff.mp wraps
  exact entryInRange found

theorem wrapsFalls {t : Table} (sound : t.Sound) {ty target : TypeId}
    (wraps : Relation.TransGen t.Wraps ty target) : target.raw < ty.raw := by
  induction wraps with
  | single step =>
    obtain ⟨e, found, wrapped⟩ := step
    exact sound.wraps found wrapped
  | tail _ step ih =>
    obtain ⟨e, found, wrapped⟩ := step
    exact Nat.lt_trans (sound.wraps found wrapped) ih

end Table

namespace Expansion

variable {α β : Type} {t : Table} {o : Options} {s : Session}

open scoped Classical in
noncomputable def around (t : Table) (ty : TypeId) : Finset Nat :=
  (Finset.range t.types.size).filter (fun i => Relation.TransGen t.Wraps ⟨i⟩ ty)

open scoped Classical in
noncomputable def settled (t : Table) (s : Session) : Finset Nat :=
  (Finset.range t.types.size).filter (fun i =>
    ∃ r, Relation.ReflTransGen t.Wraps ⟨i⟩ r ∧ isRecord t r = true ∧ s.Knows r)

theorem memAround {ty : TypeId} {i : Nat} :
    i ∈ around t ty ↔ Relation.TransGen t.Wraps ⟨i⟩ ty := by
  simp only [around, Finset.mem_filter, Finset.mem_range, and_iff_right_iff_imp]
  exact Table.wrapsInside

theorem notAround (sound : t.Sound) (ty : TypeId) : ty.raw ∉ around t ty := by
  intro inside
  exact Nat.lt_irrefl _ (Table.wrapsFalls sound (memAround.mp inside))

theorem recordWraps {r target : TypeId} (record : isRecord t r = true) : ¬ t.Wraps r target := by
  rintro ⟨e, found, wrapped⟩
  obtain ⟨type, spelling⟩ := e
  cases type <;> simp_all [isRecord, TypeClass.wrapped]

theorem recordEnds {r other : TypeId} (record : isRecord t r = true)
    (path : Relation.ReflTransGen t.Wraps r other) : other = r := by
  rcases Relation.ReflTransGen.cases_head path with same | ⟨next, step, _⟩
  · exact same.symm
  · exact absurd step (recordWraps record)

theorem recordUnique {ty a b : TypeId} (first : isRecord t a = true) (second : isRecord t b = true)
    (toFirst : Relation.ReflTransGen t.Wraps ty a) (toSecond : Relation.ReflTransGen t.Wraps ty b) :
    a = b := by
  rcases Relation.ReflTransGen.total_of_right_unique t.wrapsUnique toFirst toSecond with path | path
  · exact (recordEnds first path).symm
  · exact recordEnds second path

theorem memSettled {i : Nat} :
    i ∈ settled t s ↔ i < t.types.size ∧
      ∃ r, Relation.ReflTransGen t.Wraps ⟨i⟩ r ∧ isRecord t r = true ∧ s.Knows r := by
  simp only [settled, Finset.mem_filter, Finset.mem_range]

theorem settledUnknown {r : TypeId} (record : isRecord t r = true) (fresh : ¬ s.Knows r) {i : Nat}
    (path : Relation.ReflTransGen t.Wraps ⟨i⟩ r) : i ∉ settled t s := by
  intro inside
  obtain ⟨_, other, toOther, also, known⟩ := memSettled.mp inside
  exact fresh (recordUnique also record toOther path ▸ known)

theorem settledMore {s' : Session} (balanced : Balanced s s') : settled t s ⊆ settled t s' := by
  intro i inside
  obtain ⟨range, r, path, record, known⟩ := memSettled.mp inside
  exact memSettled.mpr ⟨range, r, path, record, balanced.known r known⟩

/- When a record becomes known, it is settled, and so is all that is around it. -/
theorem settledRecord (sound : t.Sound) {s' : Session} {r : TypeId} (inside : r.raw < t.types.size)
    (record : isRecord t r = true) (fresh : ¬ s.Knows r) (more : settled t s ⊆ settled t s')
    (known : s'.Knows r) :
    (settled t s).card + (around t r).card < (settled t s').card := by
  have apart : Disjoint (settled t s) (around t r) := by
    rw [Finset.disjoint_right]
    exact fun i wraps => settledUnknown record fresh (memAround.mp wraps).to_reflTransGen
  have covered : settled t s ∪ around t r ⊆ settled t s' := by
    intro i member
    rcases Finset.mem_union.mp member with old | wraps
    · exact more old
    · have path := memAround.mp wraps
      exact memSettled.mpr ⟨Table.wrapsInside path, r, path.to_reflTransGen, record, known⟩
  have itself : r.raw ∉ settled t s ∪ around t r := by
    rw [Finset.mem_union, not_or]
    exact ⟨settledUnknown record fresh .refl, notAround sound r⟩
  have new : r.raw ∈ settled t s' := memSettled.mpr ⟨inside, r, .refl, record, known⟩
  rw [← Finset.card_union_of_disjoint apart]
  exact Finset.card_lt_card ⟨covered, fun all => itself (all new)⟩

noncomputable def depthBound (t : Table) (s : Session) (ty : TypeId) : Nat :=
  (settled t s).card + (around t ty).card

theorem boundWrapped (sound : t.Sound) {ty target : TypeId} (wraps : t.Wraps ty target) :
    depthBound t s ty < depthBound t s target := by
  have more : around t ty ⊆ around t target :=
    fun i inside => memAround.mpr ((memAround.mp inside).tail wraps)
  have new : ty.raw ∈ around t target := memAround.mpr (.single wraps)
  exact Nat.add_lt_add_left
    (Finset.card_lt_card ⟨more, fun all => notAround sound ty (all new)⟩) _

theorem boundRecord (sound : t.Sound) {s' : Session} {ty : TypeId} {n : Node}
    (inside : ty.raw < t.types.size) (record : isRecord t ty = true) (fresh : s.lookup ty = none)
    (balanced : Balanced (s.enter ty n) s') (part : TypeId) :
    depthBound t s ty < depthBound t s' part := by
  have unknown : ¬ s.Knows ty := by
    rintro ⟨id, looked⟩
    simp [fresh] at looked
  have entering : Balanced s (s.enter ty n) :=
    balancedTrans (balancedGraph s _) (balancedInsert _ ty _)
  have known : s'.Knows ty := balanced.known ty ⟨_, Session.lookupEntered s ty n⟩
  exact Nat.lt_add_right _
    (settledRecord sound inside record unknown (settledMore (balancedTrans entering balanced)) known)

theorem boundFew (sound : t.Sound) {ty : TypeId} (inside : ty.raw < t.types.size) :
    depthBound t s ty < 2 * t.types.size := by
  have most : (settled t s).card ≤ t.types.size := by
    have within : settled t s ⊆ Finset.range t.types.size :=
      fun i member => Finset.mem_range.mpr (memSettled.mp member).1
    simpa using Finset.card_le_card within
  have few : (around t ty).card < t.types.size := by
    have within : around t ty ⊆ Finset.range t.types.size :=
      fun i member => Finset.mem_range.mpr (Table.wrapsInside (memAround.mp member))
    simpa using Finset.card_lt_card
      ⟨within, fun all => notAround sound ty (all (Finset.mem_range.mpr inside))⟩
  simp only [depthBound]
  omega

end Expansion
end ObjectLayout
