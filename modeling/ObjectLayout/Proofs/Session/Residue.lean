import ObjectLayout.Proofs.Expansion.Ahead
import ObjectLayout.Proofs.Session.History

/-! What a refused call leaves in the memo. Entries go by the age of the node that they name, so an
entry made on the way outlives the call if its node was there before: a builtin type whose primitive
the graph already had. Such an entry says what the next call would find by itself. -/
namespace ObjectLayout.Session

open Expansion

variable {t : Table} {o : Options} {precise : Prop}

inductive Origin (t : Table) (o : Options) (first s : Session) (ty : TypeId) (id : NodeId) : Prop
  | old (looked : first.lookup ty = some id)
  | allocated (newer : first.graph.nodes.size ≤ id.raw)
  | shared {kind} (measured : t.MeasuredAs o ty kind) (slot : s.graph.slot kind = some id)

theorem originKept {first s s' : Session}
    (slots : ∀ kind id, s.graph.slot kind = some id → s'.graph.slot kind = some id) {ty : TypeId}
    {id : NodeId} (h : Origin t o first s ty id) : Origin t o first s' ty id := by
  cases h with
  | old looked => exact .old looked
  | allocated newer => exact .allocated newer
  | shared measured slot => exact .shared measured (slots _ _ slot)

theorem changeOrigin {since : Nat} {first s s' : Session} (step : Change t o since s s')
    (size : first.graph.nodes.size ≤ s.graph.nodes.size)
    (h : ∀ ty id, s.lookup ty = some id → Origin t o first s ty id) {ty : TypeId} {id : NodeId}
    (looked : s'.lookup ty = some id) : Origin t o first s' ty id := by
  have unchanged : ∀ {r : Session}, (∀ kind, r.graph.slot kind = s.graph.slot kind) →
      s.lookup ty = some id → Origin t o first r ty id := fun slots before =>
    originKept (fun kind _ slot => (slots kind).trans slot) (h ty id before)
  cases step with
  | level depth => exact unchanged (fun _ => rfl) looked
  | enter fresh found plain complete own closed =>
    rw [lookupEnter] at looked
    split at looked
    · cases looked
      exact .allocated size
    · exact unchanged (fun _ => rfl) looked
  | @shareFor other e builtin kind fresh found same measured =>
    rw [lookupShareFor] at looked
    split at looked
    · rename_i equal
      cases looked
      have slot : (s.graph.addPrimitive kind).2.slot kind = some (s.graph.addPrimitive kind).1 := by
        rw [Graph.slotAddPrimitive, if_pos rfl]
      exact .shared (equal ▸ ⟨e, builtin, found, same, measured⟩) slot
    · exact originKept (fun _ _ slot => slotShared slot) (h ty id looked)
  | stub => exact originKept (fun _ _ slot => slotShared slot) (h ty id looked)
  | fill newer found closed => exact unchanged (fun _ => rfl) looked

theorem advanceOrigin {first s : Session} (path : Advance t o first s) {ty : TypeId} {id : NodeId}
    (looked : s.lookup ty = some id) : Origin t o first s ty id := by
  induction path generalizing ty id with
  | refl => exact .old looked
  | tail before step ih => exact changeOrigin step (advanceGrown before).size (fun _ _ => ih) looked

theorem refusedAhead {s last : Session} (ready : Ready t o precise s) (path : Advance t o s last) :
    Ahead t o (last.rollback s.graph.mark) s := by
  have resolved := changesResolved path ready.resolved
  have grown := advanceGrown path
  refine ⟨Graph.rollbackRestores grown.graph ready.resolved.slots, ?_, ?_⟩
  · intro ty id looked
    exact (lookupRollback resolved).mpr
      ⟨grown.memo ty id looked, (ready.resolved.memo ty id looked).2⟩
  · intro ty id looked
    obtain ⟨found, older⟩ := (lookupRollback resolved).mp looked
    cases advanceOrigin path found with
    | old before => exact .inl before
    | allocated newer => exact absurd older (Nat.not_lt.mpr newer)
    | @shared kind measured slot =>
      refine .inr ⟨kind, measured, ?_⟩
      rcases grown.graph.slotNew kind id slot with before | newer
      · exact before
      · exact absurd older (Nat.not_lt.mpr newer)

theorem refusalAhead (sound : t.Sound) {s s' : Session} (ready : Ready t o precise s) {call : Call}
    {cause : Unsupported} (refused : s.answer t o call = .ok (.error cause, s')) :
    Ahead t o s' s := by
  obtain ⟨last, outcome, same | ⟨id, node, _⟩⟩ := answerOutcome sound ready refused
  · cases outcome with
    | refused path =>
      rw [same]
      exact refusedAhead ready path
  · contradiction

theorem refusalKeepsMemo {g : Graph} {calls : List Call} {answers} {s s' : Session} {call : Call}
    {cause : Unsupported} (valid : t.validate = .ok ()) (slots : g.SlotsResolve)
    (ran : run t o (.start g) calls = .ok (answers, s))
    (refused : s.answer t o call = .ok (.error cause, s')) :
    (∀ ty, s'.lookup ty = s.lookup ty ∨ s.lookup ty = none ∧
      ∃ kind id, t.MeasuredAs o ty kind ∧ s.graph.slot kind = some id ∧ s'.lookup ty = some id) ∧
    ((∀ ty kind, t.MeasuredAs o ty kind → s.lookup ty = none → s.graph.slot kind = none) →
      ∀ ty, s'.lookup ty = s.lookup ty) := by
  have sound := Table.validSound valid
  have ahead := refusalAhead sound (runSettled sound (startSettled slots) ran).ready refused
  have each : ∀ ty, s'.lookup ty = s.lookup ty ∨ s.lookup ty = none ∧
      ∃ kind id, t.MeasuredAs o ty kind ∧ s.graph.slot kind = some id ∧ s'.lookup ty = some id := by
    intro ty
    cases before : s.lookup ty with
    | some id => exact .inl (ahead.memo ty id before)
    | none =>
      cases after : s'.lookup ty with
      | none => exact .inl rfl
      | some id =>
        rcases ahead.extra ty id after with known | ⟨kind, measured, slot⟩
        · rw [before] at known
          contradiction
        · exact .inr ⟨rfl, kind, id, measured, slot, rfl⟩
  refine ⟨each, fun entered ty => ?_⟩
  rcases each ty with same | ⟨absent, kind, id, measured, slot, _⟩
  · exact same
  · rw [entered ty kind measured absent] at slot
    contradiction

/- `long long` has its node; `unsigned long long`, which is measured alike, is met on the way to the
refusal of `Wide`. -/
def longSession : Session where
  graph := (Graph.empty.addPrimitive .int64).2
  memo := ⟨[(⟨0⟩, ⟨0⟩)]⟩
  depth := 0

def longResidue : Session := { longSession with memo := ⟨[(⟨1⟩, ⟨0⟩), (⟨0⟩, ⟨0⟩)]⟩ }

theorem longRun : run sampleTable sampleOptions (.start .empty) [.expand ⟨0⟩] =
    .ok ([.ok ⟨0⟩], longSession) := by
  decide +kernel

theorem longRefused : longSession.answer sampleTable sampleOptions (.expand ⟨6⟩) =
    .ok (.error (.builtin .int128), longResidue) := by
  decide +kernel

theorem refusalKeepsSampleMemo :
    (∀ ty, longResidue.lookup ty = longSession.lookup ty ∨ longSession.lookup ty = none ∧
      ∃ kind id, sampleTable.MeasuredAs sampleOptions ty kind ∧
        longSession.graph.slot kind = some id ∧ longResidue.lookup ty = some id) ∧
    ((∀ ty kind, sampleTable.MeasuredAs sampleOptions ty kind → longSession.lookup ty = none →
        longSession.graph.slot kind = none) →
      ∀ ty, longResidue.lookup ty = longSession.lookup ty) :=
  refusalKeepsMemo sampleValid Graph.emptySlotsResolve longRun longRefused

/- So a refusal does not always restore the memo. -/
theorem refusalEntersBuiltin :
    sampleTable.validate = .ok () ∧
    ∃ s s', run sampleTable sampleOptions (.start .empty) [.expand ⟨0⟩] = .ok ([.ok ⟨0⟩], s) ∧
      s.answer sampleTable sampleOptions (.expand ⟨6⟩) = .ok (.error (.builtin .int128), s') ∧
      s.lookup ⟨1⟩ = none ∧ s'.lookup ⟨1⟩ = some ⟨0⟩ :=
  ⟨sampleValid, longSession, longResidue, longRun, longRefused, by decide, by decide⟩

end ObjectLayout.Session
