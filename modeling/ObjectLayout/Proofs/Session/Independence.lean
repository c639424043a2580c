import ObjectLayout.Proofs.Expansion.Shadow
import ObjectLayout.Proofs.Session.Twins

/-! What earlier calls have to do with a later one. It is refused for what it would be refused for in a
new session. Where addresses are followed nothing is different but the handles: a call that is not
refused is answered with the same graph below the node. -/
namespace ObjectLayout.Session

open Expansion

variable {t : Table} {o : Options}

def entered (s : Session) : List TypeId := s.memo.entries.map Prod.fst

theorem enteredShadows (s : Session) : Shadows s s.entered := by
  intro ty
  constructor
  · rintro ⟨id, looked⟩
    by_contra absent
    have none : s.lookup ty = none := by
      apply List.lookup_eq_none_iff.mpr
      intro e member
      have apart : ty ≠ e.1 := fun same => absent (same ▸ List.mem_map_of_mem member)
      simpa using apart
    rw [none] at looked
    contradiction
  · intro member
    cases looked : s.lookup ty with
    | none => exact absurd member (lookupNone looked)
    | some id => exact ⟨id, looked⟩

inductive Found (t : Table) (o : Options) (s : Session) (ty : TypeId) :
    Except Unsupported NodeId → Prop
  | node (id : NodeId) {known} (found : t.search o (fuel t) true ty s.entered = .ok known) :
      Found t o s ty (.ok id)
  | refused {cause} (found : t.search o (fuel t) true ty s.entered = .error cause) :
      Found t o s ty (.error cause)

theorem answerFound (sound : t.Sound) {s s' : Session} {call : Call} {a}
    (ended : s.answer t o call = .ok (a, s')) : Found t o s call.ty a := by
  obtain ⟨last, expanded, _⟩ := answerExpands ended
  have level : Shadows { s with depth := 0 } s.entered := enteredShadows s
  have follows := expandFollows (o := o) sound (fuel t) call.ty level
  unfold expand at expanded
  unfold Follows Meets at follows
  cases run : Expansion.expand t o (fuel t) call.ty { s with depth := 0 } with
  | ok id final =>
    simp only [run] at expanded follows
    cases expanded
    obtain ⟨_, known, found, _⟩ := follows
    exact .node id found
  | error e final =>
    simp only [run] at expanded follows
    cases e with
    | fault f => contradiction
    | unsupported cause =>
      cases expanded
      exact .refused (follows cause rfl)

theorem newBeside (s : Session) : Table.Beside s s.entered (start .empty).entered := by
  intro ty
  have nothing : ty ∉ (start .empty).entered := List.not_mem_nil
  simp only [nothing, false_or]
  exact (enteredShadows s ty).symm

theorem answersAligned (sound : t.Sound) {s s' r : Session}
    (h : AllExplored t o s) {call : Call} {a b} (ended : s.answer t o call = .ok (a, s'))
    (new : (start .empty).answer t o call = .ok (b, r)) :
    (∃ cause, a = .error cause ∧ b = .error cause) ∨ ∃ id top, a = .ok id ∧ b = .ok top := by
  have aligned := Table.searchAligned h (fuel t) true call.ty (newBeside s)
  cases answerFound sound ended with
  | node id found =>
    cases answerFound sound new with
    | node top _ => exact .inr ⟨id, top, rfl, rfl⟩
    | refused again =>
      rw [found, again] at aligned
      contradiction
  | refused found =>
    cases answerFound sound new with
    | node top again =>
      rw [found, again] at aligned
      contradiction
    | refused again =>
      rw [found, again] at aligned
      cases aligned
      exact .inl ⟨_, rfl, rfl⟩

theorem answerLookup (sound : t.Sound) {s s' : Session} (h : Whole t o s) {call : Call} {id : NodeId}
    (ended : s.answer t o call = .ok (.ok id, s')) :
    ∃ last, t.Desugars call.ty last ∧ s'.lookup last = some id := by
  obtain ⟨final, outcome, ends⟩ := answerOutcome sound h.settled.ready ended
  cases outcome with
  | node _ _ child =>
    obtain ⟨last, path, looked⟩ := linkedKnown (child.linked trivial)
    rcases ends with rfl | ⟨root, _, rfl⟩
    · exact ⟨last, path, looked⟩
    · exact ⟨last, path, looked⟩

theorem historyUnseen {calls : List Call} {answers} {s : Session} {call : Call}
    (valid : t.validate = .ok ()) (chases : o.chasePointers = true)
    (ran : run t o (.start .empty) calls = .ok (answers, s)) (inside : call.ty.raw < t.types.size) :
    ∃ a s' b r, s.answer t o call = .ok (a, s') ∧ (start .empty).answer t o call = .ok (b, r) ∧
      (∀ cause, a = .error cause ↔ b = .error cause) ∧
      ∀ id, a = .ok id → ∃ top, b = .ok top ∧
        ∃ rename, Graph.Renames s'.graph r.graph id top rename := by
  have sound := Table.validSound valid
  have whole := runWhole sound ran
  have empty : Whole t o (start .empty) := ⟨emptySettled, startExplored .empty⟩
  obtain ⟨a, s', ended, _⟩ := callEnds sound whole.settled.ready inside
  obtain ⟨b, r, new, _⟩ := callEnds sound empty.settled.ready inside
  refine ⟨a, s', b, r, ended, new, ?_⟩
  rcases answersAligned sound whole.explored ended new with
    ⟨cause, rfl, rfl⟩ | ⟨id, top, rfl, rfl⟩
  · exact ⟨fun _ => Iff.rfl, fun _ => nofun⟩
  · refine ⟨fun cause => ⟨nofun, nofun⟩, ?_⟩
    rintro _ ⟨⟩
    obtain ⟨last, path, looked⟩ := answerLookup sound whole ended
    obtain ⟨final, way, there⟩ := answerLookup sound empty new
    have twins := sameTypeTwins (answerWhole sound whole ended) (answerWhole sound empty new) chases
    have same := Table.desugarsUnique way path
    exact ⟨top, rfl, Graph.twinsRename twins ⟨last, looked, same ▸ there⟩⟩

def chasingOptions : Options := { sampleOptions with chasePointers := true }

/- After a call that made nodes, one that was refused and one that made a root. -/
def usedSession : Session where
  graph := {
    nodes := #[.incomplete "incomplete type `Hidden`", .pointer ⟨0⟩, .primitive .int64]
    roots := [⟨2⟩]
    slots := Graph.empty.slots.setIfInBounds (Primitive.index .int64) (some ⟨2⟩) }
  memo := ⟨[(⟨1⟩, ⟨2⟩), (⟨9⟩, ⟨1⟩), (⟨8⟩, ⟨0⟩)]⟩
  depth := 0

theorem sampleHistoryUnseen :
    run sampleTable chasingOptions (.start .empty) [.expand ⟨9⟩, .expand ⟨6⟩, .expandRoot ⟨1⟩] =
        .ok ([.ok ⟨1⟩, .error (.builtin .int128), .ok ⟨2⟩], usedSession) ∧
      ∃ a s' b r, usedSession.answer sampleTable chasingOptions (.expand ⟨5⟩) = .ok (a, s') ∧
        (start .empty).answer sampleTable chasingOptions (.expand ⟨5⟩) = .ok (b, r) ∧
        (∀ cause, a = .error cause ↔ b = .error cause) ∧
        ∀ id, a = .ok id → ∃ top, b = .ok top ∧
          ∃ rename, Graph.Renames s'.graph r.graph id top rename := by
  have ran : run sampleTable chasingOptions (.start .empty)
      [.expand ⟨9⟩, .expand ⟨6⟩, .expandRoot ⟨1⟩] =
        .ok ([.ok ⟨1⟩, .error (.builtin .int128), .ok ⟨2⟩], usedSession) := by
    decide +kernel
  exact ⟨ran, historyUnseen sampleValid rfl ran (by decide)⟩

end ObjectLayout.Session
