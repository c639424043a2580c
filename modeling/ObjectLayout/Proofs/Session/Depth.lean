import Mathlib.Algebra.Group.Nat.Defs
import ObjectLayout.Proofs.Expansion.Counter
import ObjectLayout.Proofs.Session.Ending

/-! The depth over a session. No call goes deeper than twice the number of types, so a counter of
thirty-two bits serves tables of up to half its range; and every call leaves the counter at zero. -/
namespace ObjectLayout.Session

open Expansion

variable {t : Table} {o : Options}

theorem expandReturns (room : Nat) (ty : TypeId) (s : Session) :
    Returns (Expansion.expand t o room ty) s :=
  steadyReturns (expandSteady room ty) s

theorem countsWithin (t : Table) : Counts t (deeperWithin (2 * t.types.size)) :=
  fun x _ _ low => withinSame x low

theorem countsWord (few : t.types.size < 2 ^ 31) : Counts t deeperWord := by
  intro x s returns low
  have fits : s.depth + 1 < UInt32.size := by
    simp only [UInt32.size]
    omega
  exact wordSame returns fits

theorem callReturns {s last : Session} {call : Call} {a}
    (ended : s.answer t o call = .ok (a, last)) : last.depth = 0 := by
  obtain ⟨before, expanded, rfl⟩ := answerExpands ended
  have returns : before.depth = 0 := by
    have balanced := expandReturns (t := t) (o := o) (fuel t) call.ty { s with depth := 0 }
    unfold Returns Meets at balanced
    unfold expand at expanded
    cases run : Expansion.expand t o (fuel t) call.ty { s with depth := 0 } with
    | ok id mid =>
      simp only [run] at expanded balanced
      cases expanded
      exact balanced
    | error e mid =>
      simp only [run] at expanded balanced
      cases e <;> cases expanded
      exact balanced
  rcases finishCases before call a with same | ⟨id, _, same⟩ <;> rw [same] <;> exact returns

/- A call does what it would do if it gave up beyond the bound, and what it would do if it counted in a
word; each type that it asks for on the way gives the depth back, with whatever outcome. -/
theorem depthBounded {g : Graph} {calls : List Call} {answers} {s : Session}
    (valid : t.validate = .ok ()) (slots : g.SlotsResolve)
    (ran : run t o (.start g) calls = .ok (answers, s)) {call : Call}
    (inside : call.ty.raw < t.types.size) :
    (∀ room ty, Expansion.expandCounting t o deeper room ty = Expansion.expand t o room ty) ∧
    Expansion.expandCounting t o (deeperWithin (2 * t.types.size)) (fuel t) call.ty
        { s with depth := 0 } =
      Expansion.expand t o (fuel t) call.ty { s with depth := 0 } ∧
    (t.types.size < 2 ^ 31 →
      Expansion.expandCounting t o deeperWord (fuel t) call.ty { s with depth := 0 } =
        Expansion.expand t o (fuel t) call.ty { s with depth := 0 }) ∧
    (∀ room ty first, Meets first (Expansion.expand t o room ty)
      (fun _ last => last.depth = first.depth) (fun _ last => last.depth = first.depth)) ∧
    ∃ a last, s.answer t o call = .ok (a, last) ∧ last.depth = 0 := by
  have sound := Table.validSound valid
  have settled : Settled t o False s := runSettled sound (startSettled slots) ran
  obtain ⟨a, last, ended, _⟩ := callEnds sound settled.ready inside
  refine ⟨countingDeeper, ?_, fun few => ?_, expandReturns, a, last, ended, callReturns ended⟩
  · exact (countingAgrees sound (countsWithin t) (fuel t) _ call.ty (Nat.zero_le _)).symm
  · exact (countingAgrees sound (countsWord few) (fuel t) _ call.ty (Nat.zero_le _)).symm

/- A record with a field that leads back to it through two pointers. While the field is expanded, the
pointers are open for the second time: five levels for three types. -/
def knotTable : Table where
  types := #[⟨.record ⟨0⟩, none⟩, ⟨.pointer ⟨0⟩, none⟩, ⟨.pointer ⟨1⟩, none⟩]
  decls := #[.record ⟨.structKind, "Knot", "Knot", false⟩
    (some ⟨64, 64, [⟨"self", ⟨2⟩, 0, none⟩], [], [], none⟩)]
  roots := [⟨"Knot", ⟨0⟩⟩]

def knotOptions : Options := ⟨true, false, .lp64⟩

theorem knotDepthBounded :
    Expansion.expandCounting knotTable knotOptions (deeperWithin 6) (fuel knotTable) ⟨2⟩
        (start .empty) =
      Expansion.expand knotTable knotOptions (fuel knotTable) ⟨2⟩ (start .empty) ∧
    Expansion.expandCounting knotTable knotOptions deeperWord (fuel knotTable) ⟨2⟩
        (start .empty) =
      Expansion.expand knotTable knotOptions (fuel knotTable) ⟨2⟩ (start .empty) ∧
    ∃ a last, (start .empty).answer knotTable knotOptions (.expand ⟨2⟩) = .ok (a, last) ∧
      last.depth = 0 := by
  have valid : knotTable.validate = .ok () := by decide
  have ran : run knotTable knotOptions (.start .empty) [] = .ok ([], .start .empty) := rfl
  have inside : (Call.expand ⟨2⟩).ty.raw < knotTable.types.size := by decide
  obtain ⟨_, within, word, _, ends⟩ := depthBounded valid Graph.emptySlotsResolve ran inside
  exact ⟨within, word (by decide), ends⟩

/- A limit of four levels is not enough: the field is given up, with the record entered. -/
example : Expansion.expandCounting knotTable knotOptions (deeperWithin 4) (fuel knotTable) ⟨2⟩
      (start .empty) =
    .error (.fault .endless) ((start .empty).enter ⟨0⟩
      (.record ⟨.structKind, "Knot", "Knot", 8, 8, false, [], [], [], []⟩)) := by
  rfl

end ObjectLayout.Session
