import ObjectLayout.Proofs.Expansion.Answers

/-! Sessions in which types were asked for in any order, with any outcomes. What one call keeps,
every history of calls keeps; a call that is refused takes back what it had entered. -/
namespace ObjectLayout

inductive Call where
  | expand (ty : TypeId)
  | expandRoot (ty : TypeId)
  deriving DecidableEq, Repr

def Call.ty : Call → TypeId
  | .expand ty | .expandRoot ty => ty

namespace Session
open Expansion

def answer (t : Table) (o : Options) (s : Session) : Call → Except Fault Answer
  | .expand ty => s.expand t o ty
  | .expandRoot ty => s.expandRoot t o ty

def run (t : Table) (o : Options) :
    Session → List Call → Except Fault (List (Except Unsupported NodeId) × Session)
  | s, [] => .ok ([], s)
  | s, call :: rest => do
      let (a, s) ← s.answer t o call
      let (as, s) ← run t o s rest
      .ok (a :: as, s)

theorem runCons {t o} {s last : Session} {call : Call} {rest : List Call} {answers}
    (ran : run t o s (call :: rest) = .ok (answers, last)) :
    ∃ a s' as, s.answer t o call = .ok (a, s') ∧ run t o s' rest = .ok (as, last) ∧
      answers = a :: as := by
  simp only [run, bind, Except.bind] at ran
  cases first : s.answer t o call with
  | error f => simp [first] at ran
  | ok pair =>
    obtain ⟨a, s'⟩ := pair
    simp only [first] at ran
    cases second : run t o s' rest with
    | error f => simp [second] at ran
    | ok pair =>
      obtain ⟨as, final⟩ := pair
      simp only [second, Except.ok.injEq, Prod.mk.injEq] at ran
      obtain ⟨same, equal⟩ := ran
      subst equal
      exact ⟨a, s', as, rfl, second, same.symm⟩

theorem runKeeps {t o} {P : Session → Prop}
    (each : ∀ s call a s', P s → s.answer t o call = .ok (a, s') → P s') {s last : Session}
    {calls : List Call} {answers} (ran : run t o s calls = .ok (answers, last)) (start : P s) :
    P last := by
  induction calls generalizing s answers with
  | nil =>
    simp only [run, Except.ok.injEq, Prod.mk.injEq] at ran
    exact ran.2 ▸ start
  | cons call rest ih =>
    obtain ⟨a, s', as, first, second, _⟩ := runCons ran
    exact ih second (each s call a s' start first)

inductive Outcome (t : Table) (o : Options) (precise : Prop) (s : Session) (ty : TypeId) :
    Except Unsupported NodeId → Session → Prop
  | node {id last} (path : Advance t o s last) (described : precise → Described t o s last)
      (child : Child t precise true last ty id) : Outcome t o precise s ty (.ok id) last
  | refused {cause last} (path : Advance t o s last) :
      Outcome t o precise s ty (.error cause) (last.rollback s.graph.mark)

variable {t : Table} {o : Options} {precise : Prop}

theorem expandOutcome (sound : t.Sound) {s : Session} (ready : Ready t o precise s) {ty : TypeId}
    (inside : ty.raw < t.types.size) :
    ∃ a s', s.expand t o ty = .ok (a, s') ∧ Outcome t o precise s ty a s' := by
  have down : Advance t o s { s with depth := 0 } := .single (.level 0)
  have ends := expandAnswers sound (fuel t) { s with depth := 0 } ty (readyAfter ready down) inside
    (costFuel _ inside)
  unfold Meets at ends
  unfold expand
  cases run : Expansion.expand t o (fuel t) ty { s with depth := 0 } with
  | ok id last =>
    simp only [run] at ends
    exact ⟨_, _, rfl, .node (advanceTrans down ends.progress.path) ends.progress.described ends.child⟩
  | error e last =>
    simp only [run] at ends
    obtain ⟨cause, same⟩ := ends.cause
    subst same
    exact ⟨_, _, rfl, .refused (advanceTrans down ends.path)⟩

theorem expandInside {s : Session} (resolved : s.Resolved t) {ty : TypeId} {answer}
    (ended : s.expand t o ty = .ok answer) : ty.raw < t.types.size := by
  by_contra outside
  have absent : t.entry? ty = none := Array.getElem?_eq_none (Nat.not_lt.mp outside)
  have fresh : s.lookup ty = none := by
    cases looked : s.lookup ty with
    | none => rfl
    | some id => exact absurd (resolved.memo ty id looked).1 outside
  have room : fuel t = (t.types.size + 1) * (t.types.size + 1) + t.types.size + 1 := by
    rw [fuel, Nat.mul_succ]
    rfl
  have level : Session.lookup { s with depth := 0 } ty = none := fresh
  have runs : Expansion.expand t o (fuel t) ty { s with depth := 0 } =
      .error (.fault (.missingType ty)) { s with depth := 0 } := by
    rw [room]
    exact expandWithMissing level absent
  simp [expand, runs] at ended

def finish (s : Session) : Call → Except Unsupported NodeId → Session
  | .expandRoot _, .ok id => s.addRoot id
  | .expandRoot _, .error _ => s
  | .expand _, _ => s

theorem answerRuns (s : Session) (call : Call) :
    s.answer t o call =
      (s.expand t o call.ty).map (fun (a, last) => (a, last.finish call a)) := by
  cases call with
  | expand ty =>
    simp only [answer, Call.ty]
    cases s.expand t o ty <;> rfl
  | expandRoot ty =>
    simp only [answer, expandRoot, Call.ty, bind, Except.bind]
    cases s.expand t o ty with
    | error f => rfl
    | ok pair =>
      obtain ⟨a, last⟩ := pair
      cases a <;> rfl

theorem answerExpands {s s' : Session} {call : Call} {a}
    (ended : s.answer t o call = .ok (a, s')) :
    ∃ last, s.expand t o call.ty = .ok (a, last) ∧ s' = last.finish call a := by
  rw [answerRuns] at ended
  cases ran : s.expand t o call.ty with
  | error f => simp [ran, Except.map] at ended
  | ok pair =>
    obtain ⟨b, last⟩ := pair
    rw [ran] at ended
    cases ended
    exact ⟨last, rfl, rfl⟩

theorem finishCases (s : Session) (call : Call) (a : Except Unsupported NodeId) :
    s.finish call a = s ∨ ∃ id, a = .ok id ∧ s.finish call a = s.addRoot id := by
  cases call with
  | expand ty => exact .inl rfl
  | expandRoot ty =>
    cases a with
    | error cause => exact .inl rfl
    | ok id => exact .inr ⟨id, rfl, rfl⟩

theorem answerOutcome (sound : t.Sound) {s s' : Session} (ready : Ready t o precise s) {call : Call}
    {a} (ended : s.answer t o call = .ok (a, s')) :
    ∃ last, Outcome t o precise s call.ty a last ∧
      (s' = last ∨ ∃ id, a = .ok id ∧ s' = last.addRoot id) := by
  obtain ⟨last, expanded, ends⟩ := answerExpands ended
  obtain ⟨b, final, again, outcome⟩ := expandOutcome sound ready (expandInside ready.resolved expanded)
  rw [expanded] at again
  cases again
  exact ⟨_, outcome, ends ▸ finishCases _ call a⟩

structure Settled (t : Table) (o : Options) (precise : Prop) (s : Session) : Prop where
  ready : Ready t o precise s
  described : precise → ∀ ty id, s.lookup ty = some id →
    ∃ n, s.graph.node? id = some n ∧ Describes t o (Linked t o.chasePointers s) ty n

theorem startSettled {g : Graph} (slots : g.SlotsResolve) : Settled t o False (.start g) := by
  refine ⟨⟨⟨slots, ?_, List.nodup_nil⟩, False.elim⟩, False.elim⟩
  intro ty id looked
  simp [lookup, start, Memo.findEmpty] at looked

theorem emptySettled : Settled t o True (.start .empty) := by
  refine ⟨⟨(startSettled (o := o) Graph.emptySlotsResolve).ready.resolved,
    fun _ => startCoherent t o⟩, ?_⟩
  intro _ ty id looked
  simp [lookup, start, Memo.findEmpty] at looked

theorem settledNode {s last : Session} (h : Settled t o precise s) (path : Advance t o s last)
    (described : precise → Described t o s last) : Settled t o precise last := by
  refine ⟨readyAfter h.ready path, ?_⟩
  intro sure ty id looked
  have grown := advanceGrown path
  rcases described sure ty id looked with old | new
  · obtain ⟨n, node, shown⟩ := h.described sure ty id old
    refine ⟨n, ?_, describesKept (fun _ _ link => linkedGrown grown link) shown⟩
    rw [grown.graph.node id (Graph.nodeInside node), node]
  · exact new

theorem settledRoot {s : Session} (h : Settled t o precise s) (id : NodeId) :
    Settled t o precise (s.addRoot id) := by
  have resolved := h.ready.resolved
  refine ⟨⟨⟨resolved.slots, resolved.memo, resolved.keys⟩, ?_⟩, ?_⟩
  · intro sure
    have coherent := h.ready.coherent sure
    exact ⟨coherent.slots, fun ty id looked => enteredKept (coherent.entered ty id looked) rfl,
      coherent.own, coherent.covered⟩
  · intro sure ty id looked
    obtain ⟨n, node, shown⟩ := h.described sure ty id looked
    refine ⟨n, node, describesKept (fun _ _ link => ?_) shown⟩
    exact linkedKept (s := s) (by intro _ _ kept; exact kept) (by intro _ kept; exact kept) link

theorem nodeRestored {s last : Session} (grown : Grown s last) {id : NodeId}
    (inside : id.raw < s.graph.nodes.size) :
    (last.rollback s.graph.mark).graph.node? id = s.graph.node? id := by
  have kept := grown.graph.node id inside
  exact (Graph.nodeRollback last.graph _ id).trans ((if_pos inside).trans kept)

theorem linkedRestored {followed} {s last : Session} (before : s.Resolved t)
    (after : last.Resolved t) (grown : Grown s last) {ty : TypeId} {id : NodeId}
    (link : Linked t followed s ty id) : Linked t followed (last.rollback s.graph.mark) ty id := by
  apply linkedKept (s := s) ?_ ?_ link
  · intro a b known
    exact (lookupRollback after).mpr ⟨grown.memo a b known, (before.memo a b known).2⟩
  · intro stub at_stub
    exact (nodeRestored grown (Graph.nodeInside at_stub)).trans at_stub

theorem lookupOlder {s last : Session} (before : s.Coherent t o) (after : last.Coherent t o)
    (grown : Grown s last) {ty : TypeId} {id : NodeId} {n : Node}
    (looked : last.lookup ty = some id) (node : s.graph.node? id = some n)
    (own : n.isPrimitive = false) : s.lookup ty = some id := by
  have later := (grown.graph.node id (Graph.nodeInside node)).trans node
  rcases before.covered id n node with stub | ⟨other, kept⟩
  · rw [stub] at own
    contradiction
  · have same := after.own other ty id n (grown.memo _ _ kept) looked later own
    exact same ▸ kept

/- What a refused call leaves in the memo is old, or a builtin type whose primitive was there: every
other node has the one type that it had before. -/
theorem settledRollback {s last : Session} (h : Settled t o precise s)
    (path : Advance t o s last) : Settled t o precise (last.rollback s.graph.mark) := by
  have grown := advanceGrown path
  have after := readyAfter h.ready path
  have resolved := after.resolved
  refine ⟨⟨rollbackResolved resolved grown.size, fun sure =>
    rollbackCoherent (after.coherent sure) resolved _⟩, ?_⟩
  intro sure ty id looked
  obtain ⟨found, older⟩ := (lookupRollback resolved).mp looked
  have entered := (after.coherent sure).entered ty id found
  obtain ⟨n, node, complete⟩ := entered.node
  have before : s.graph.node? id = some n := (grown.graph.node id older).symm.trans node
  have here := nodeRestored grown older
  cases own : n.isPrimitive with
  | true =>
    obtain ⟨kind, same⟩ := Node.primitiveKind own
    subst same
    obtain ⟨e, builtin, at_ty, same, measured⟩ := entered.builtin kind node
    exact ⟨_, here.trans before, .complete at_ty complete (same ▸ .builtin measured)⟩
  | false =>
    -- the node had a type before the call, and no type that came later can share it
    have kept := lookupOlder (h.ready.coherent sure) (after.coherent sure) grown found before own
    obtain ⟨m, at_id, shown⟩ := h.described sure ty id kept
    have links : ∀ ty id, Linked t o.chasePointers s ty id →
        Linked t o.chasePointers (last.rollback s.graph.mark) ty id :=
      fun _ _ link => linkedRestored h.ready.resolved resolved grown link
    exact ⟨m, here.trans at_id, describesKept links shown⟩

theorem answerSettled (sound : t.Sound) {s s' : Session} (h : Settled t o precise s) {call : Call}
    {a} (ended : s.answer t o call = .ok (a, s')) : Settled t o precise s' := by
  obtain ⟨last, outcome, same | ⟨id, _, same⟩⟩ := answerOutcome sound h.ready ended
  all_goals
    have settled : Settled t o precise last := by
      cases outcome with
      | node path described child => exact settledNode h path described
      | refused path => exact settledRollback h path
    rw [same]
  · exact settled
  · exact settledRoot settled id

theorem runSettled (sound : t.Sound) {s last : Session} (h : Settled t o precise s)
    {calls : List Call} {answers} (ran : run t o s calls = .ok (answers, last)) :
    Settled t o precise last :=
  runKeeps (fun _ _ _ _ settled ended => answerSettled sound settled ended) ran h

/- A template that leads back to itself, a class with a part that has no layout, a type without a
definition, and an enum with two names for one value. -/
def sampleTable : Table where
  types := #[⟨.builtin .longLong, none⟩, ⟨.builtin .ulongLong, none⟩, ⟨.builtin .int128, none⟩,
    ⟨.record ⟨0⟩, none⟩, ⟨.pointer ⟨3⟩, none⟩, ⟨.sugar .elaborated ⟨4⟩, none⟩,
    ⟨.record ⟨1⟩, none⟩, ⟨.pointer ⟨6⟩, none⟩, ⟨.record ⟨2⟩, none⟩, ⟨.reference ⟨8⟩, none⟩,
    ⟨.enum ⟨3⟩, none⟩, ⟨.array ⟨10⟩ 4, none⟩]
  decls := #[
    .record ⟨.structKind, "Ring", "Ring<const long long, 4>", false⟩
      (some ⟨64, 64, [⟨"next", ⟨5⟩, 0, none⟩], [], [],
        some [.type ⟨0⟩ true, .integral ⟨1⟩ "4"]⟩),
    .record ⟨.classKind, "Wide", "Wide", true⟩
      (some ⟨512, 128, [⟨"wide", ⟨2⟩, 256, none⟩], [⟨⟨3⟩, 64⟩], [⟨"get", true⟩], none⟩),
    .record ⟨.structKind, "Hidden", "Hidden", false⟩ none,
    .enum "Color" (some ⟨32, [⟨"red", 0⟩, ⟨"crimson", 0⟩, ⟨"green", 1⟩]⟩)]
  roots := [⟨"Ring", ⟨3⟩⟩, ⟨"Wide", ⟨6⟩⟩]

def sampleOptions : Options := ⟨false, true, .lp64⟩

def sampleCalls : List Call :=
  [.expandRoot ⟨6⟩, .expandRoot ⟨3⟩, .expand ⟨1⟩, .expand ⟨9⟩, .expandRoot ⟨11⟩, .expand ⟨7⟩]

def sampleSession : Session where
  graph := {
    nodes := #[
      .record ⟨.structKind, "Ring", "Ring<const long long, 4>", 8, 8, false,
        [.type ⟨1⟩ .const, .value ⟨1⟩ "4"], [], [⟨"next", ⟨2⟩, 0, 0⟩], []⟩,
      .primitive .int64, .primitive .stubbedPointer, .incomplete "incomplete type `Hidden`",
      .pointer ⟨3⟩, .enum ⟨"Color", 4, .ofDeclared [⟨"red", 0⟩, ⟨"green", 1⟩]⟩, .array ⟨5⟩ 4]
    roots := [⟨0⟩, ⟨6⟩]
    slots := (Graph.empty.slots.set (Primitive.index .int64) (some ⟨1⟩)).set
      (Primitive.index .stubbedPointer) (some ⟨2⟩) }
  memo := ⟨[(⟨11⟩, ⟨6⟩), (⟨10⟩, ⟨5⟩), (⟨9⟩, ⟨4⟩), (⟨8⟩, ⟨3⟩), (⟨1⟩, ⟨1⟩), (⟨0⟩, ⟨1⟩), (⟨3⟩, ⟨0⟩)]⟩
  depth := 0

theorem sampleValid : sampleTable.validate = .ok () := by decide

theorem sampleRun : run sampleTable sampleOptions (.start .empty) sampleCalls =
    .ok ([.error (.builtin .int128), .ok ⟨0⟩, .ok ⟨1⟩, .ok ⟨4⟩, .ok ⟨6⟩,
      .error (.builtin .int128)], sampleSession) := by
  decide +kernel

end Session
end ObjectLayout
