import ObjectLayout.Proofs.Expansion.Outermost
import ObjectLayout.Proofs.Session.Refusal

/-! What the members of a record show of addresses, where a session does not follow them. It is the
stub, unless the address was asked for itself before the record was met: then it has a node, and the
memo gives that node away at any depth. -/
namespace ObjectLayout.Session

open Expansion

variable {t : Table} {o : Options}

def AddressesOlder (t : Table) (s : Session) : Prop :=
  ∀ id r, s.graph.node? id = some (.record r) → ∀ m ∈ r.members, ∀ ty, t.IsAddress ty →
    s.lookup ty = some m.ty → m.ty.raw < id.raw

theorem linkedInside {precise : Prop} {followed} {s : Session} (ready : Ready t o precise s)
    {ty : TypeId} {id : NodeId} (link : Linked t followed s ty id) :
    id.raw < s.graph.nodes.size := by
  cases link with
  | known path looked => exact (ready.resolved.memo _ id looked).2
  | stub path found address unfollowed node => exact Graph.nodeInside node

theorem nodeDescribed {s : Session} (settled : Settled t o True s) {id : NodeId} {n : Node}
    (node : s.graph.node? id = some n) (own : n.isPrimitive = false) :
    ∃ ty, s.lookup ty = some id ∧ Describes t o (Linked t o.chasePointers s) ty n := by
  rcases (settled.ready.coherent trivial).covered id n node with stub | ⟨ty, looked⟩
  · rw [stub] at own
    contradiction
  · obtain ⟨m, at_id, described⟩ := settled.described trivial ty id looked
    rw [node] at at_id
    cases Option.some.inj at_id
    exact ⟨ty, looked, described⟩

theorem memberInside {s : Session} (settled : Settled t o True s) {id : NodeId} {r : Record}
    (node : s.graph.node? id = some (.record r)) {m : Member} (member : m ∈ r.members) :
    m.ty.raw < s.graph.nodes.size := by
  obtain ⟨ty, _, described⟩ := nodeDescribed settled node rfl
  cases described with
  | complete found defined built =>
    have child : m.ty ∈ (Node.record r).children :=
      List.mem_append_right _ (List.mem_map_of_mem member)
    obtain ⟨part, link⟩ := classChildren built child
    exact linkedInside settled.ready link

theorem startOlder : AddressesOlder t (.start .empty) := by
  intro id r node
  have inside := Graph.nodeInside node
  exact absurd inside (Nat.not_lt_zero _)

theorem inwardOlder {s mid : Session} (resolved : s.Resolved t) (h : AddressesOlder t s)
    (inward : Inward t o s mid) : AddressesOlder t mid := by
  intro id r node m member ty address looked
  have grown := advanceGrown inward.path
  obtain ⟨place, before⟩ := inward.older ty address ⟨_, looked⟩
  have same : place = m.ty := Option.some.inj ((grown.memo ty place before).symm.trans looked)
  subst same
  rcases Nat.lt_or_ge id.raw s.graph.nodes.size with old | new
  · exact h id r ((grown.graph.node id old).symm.trans node) m member ty address before
  · exact Nat.lt_of_lt_of_le (resolved.memo ty _ before).2 new

theorem outermostOlder {s last : Session} (settled : Settled t o True s) (h : AddressesOlder t s)
    (outermost : Outermost t o s last) : AddressesOlder t last := by
  cases outermost with
  | inward inward => exact inwardOlder settled.ready.resolved h inward
  | @address mid inward ty n other =>
    have before := inwardOlder settled.ready.resolved h inward
    have settled' := settledNode settled inward.path (fun _ => inward.described)
    intro id r node m member p address looked
    have pushed := (Graph.nodePush mid.graph n id).symm.trans node
    split at pushed
    · exact absurd (Option.some.inj pushed) (other r)
    have inside := memberInside settled' pushed member
    rw [lookupEnter] at looked
    split at looked
    · -- the address came after all that the record shows
      rw [← Option.some.inj looked] at inside
      exact absurd inside (Nat.lt_irrefl _)
    · exact before id r pushed m member p address looked

theorem addressUnmeasured {ty : TypeId} (address : t.IsAddress ty) (kind : Primitive) :
    ¬ t.MeasuredAs o ty kind := by
  obtain ⟨e, found, pointee⟩ := address
  refine notMeasured found (fun builtin same => ?_) kind
  rw [same] at pointee
  exact pointee rfl

theorem aheadOlder {s r : Session} (h : AddressesOlder t r) (ahead : Ahead t o s r) :
    AddressesOlder t s := by
  intro id rec node m member ty address looked
  rw [ahead.graph] at node
  rw [aheadLookup ahead (addressUnmeasured address)] at looked
  exact h id rec node m member ty address looked

theorem expandOlder (sound : t.Sound) (unchased : o.chasePointers = false) {s s' : Session}
    (settled : Settled t o True s) (h : AddressesOlder t s) {ty : TypeId} {id : NodeId}
    (ended : s.expand t o ty = .ok (.ok id, s')) : AddressesOlder t s' := by
  have inside := expandInside settled.ready.resolved ended
  have level : Settled t o True { s with depth := 0 } :=
    settledNode settled (.single (.level 0)) (fun _ _ _ looked => .inl looked)
  have ends := expandOutermost sound unchased rfl level.ready inside (costFuel _ inside)
  unfold expand at ended
  unfold Meets at ends
  cases run : Expansion.expand t o (fuel t) ty { s with depth := 0 } with
  | ok place last =>
    simp only [run] at ended ends
    cases ended
    exact outermostOlder level h ends
  | error e last =>
    simp only [run] at ended
    cases e <;> cases ended

theorem answerOlder (sound : t.Sound) (unchased : o.chasePointers = false) {s s' : Session}
    (settled : Settled t o True s) (h : AddressesOlder t s) {call : Call} {a}
    (ended : s.answer t o call = .ok (a, s')) : AddressesOlder t s' := by
  cases a with
  | error cause => exact aheadOlder h (refusalAhead sound settled.ready ended)
  | ok id =>
    obtain ⟨last, expanded, ends⟩ := answerExpands ended
    have older := expandOlder sound unchased settled h expanded
    rw [ends]
    rcases finishCases last call (.ok id) with same | ⟨_, _, same⟩ <;> rw [same] <;> exact older

theorem answerAsked (sound : t.Sound) (unchased : o.chasePointers = false) {s s' : Session}
    (settled : Settled t o True s) {call : Call} {a} (ended : s.answer t o call = .ok (a, s'))
    {ty : TypeId} {id : NodeId} (address : t.IsAddress ty) (looked : s'.lookup ty = some id) :
    s.lookup ty = some id ∨ a = .ok id ∧ t.Desugars call.ty ty := by
  obtain ⟨last, outcome, ends⟩ := answerOutcome sound settled.ready ended
  cases outcome with
  | @refused cause _ path =>
    have ahead := refusalAhead sound settled.ready ended
    rw [aheadLookup ahead (addressUnmeasured address)] at looked
    exact .inl looked
  | @node place _ path described child =>
    have here : last.lookup ty = some id := by
      rcases ends with same | ⟨_, _, same⟩
      all_goals
        rw [same] at looked
        exact looked
    cases answerSearch sound ended with
    | node explores met =>
      rcases explores.followed ty ⟨id, looked⟩ address with ⟨old, before⟩ | chases | asked
      · have kept := (advanceGrown path).memo ty old before
        rw [here] at kept
        exact .inl (kept ▸ before)
      · rw [unchased] at chases
        contradiction
      · cases child.linked trivial with
        | known route found =>
          rw [Table.desugarsUnique route asked, here] at found
          exact .inr ⟨congrArg Except.ok (Option.some.inj found).symm, asked⟩
        | stub _ _ _ unfollowed _ => contradiction

theorem runAsked (sound : t.Sound) (unchased : o.chasePointers = false) {s last : Session}
    (settled : Settled t o True s) {calls : List Call} {answers}
    (ran : run t o s calls = .ok (answers, last)) {ty : TypeId} {id : NodeId}
    (address : t.IsAddress ty) (looked : last.lookup ty = some id) :
    s.lookup ty = some id ∨
      ∃ call, (call, .ok id) ∈ calls.zip answers ∧ t.Desugars call.ty ty := by
  induction calls generalizing s answers with
  | nil =>
    simp only [run, Except.ok.injEq, Prod.mk.injEq] at ran
    exact .inl (ran.2 ▸ looked)
  | cons call rest ih =>
    obtain ⟨a, s', as, first, second, rfl⟩ := runCons ran
    rcases ih (answerSettled sound settled first) second with here | ⟨other, member, path⟩
    · rcases answerAsked sound unchased settled first address here with before | ⟨rfl, path⟩
      · exact .inl before
      · exact .inr ⟨call, List.mem_cons_self, path⟩
    · exact .inr ⟨other, List.mem_cons_of_mem _ member, path⟩

inductive Shows (t : Table) (s : Session) (history : List (Call × Except Unsupported NodeId))
    (record : NodeId) (ty : TypeId) (id : NodeId) : Prop
  | stub (node : s.graph.node? id = some (.primitive .stubbedPointer)) :
      Shows t s history record ty id
  | asked {call} (answered : (call, .ok id) ∈ history) (path : t.Desugars call.ty ty)
      (older : id.raw < record.raw) : Shows t s history record ty id

theorem addressesShown {calls : List Call} {answers} {s : Session} (valid : t.validate = .ok ())
    (unchased : o.chasePointers = false)
    (ran : run t o (.start .empty) calls = .ok (answers, s)) {id : NodeId} {r : Record}
    (node : s.graph.node? id = some (.record r)) :
    ∃ ty d info x members, s.lookup ty = some id ∧
      (t.entry? ty).map TypeEntry.type = some (.record d) ∧
      t.decl? d = some (.record info (some x)) ∧ r.members = layoutOrder members ∧
      List.Forall₂ (MemberDescribes (fun part child => ∀ address, t.Desugars part address →
        t.IsAddress address → Shows t s (calls.zip answers) id address child)) x.fields members := by
  have sound := Table.validSound valid
  have kept := runKeeps (P := fun s => Settled t o True s ∧ AddressesOlder t s)
    (fun _ _ _ _ both ended => ⟨answerSettled sound both.1 ended,
      answerOlder sound unchased both.1 both.2 ended⟩) ran ⟨emptySettled, startOlder⟩
  obtain ⟨settled, older⟩ := kept
  have shown : ∀ m ∈ r.members, ∀ part, Linked t o.chasePointers s part m.ty →
      ∀ address, t.Desugars part address → t.IsAddress address →
        Shows t s (calls.zip answers) id address m.ty := by
    intro m member part link address path isAddress
    cases link with
    | stub _ _ _ _ stubbed => exact .stub stubbed
    | known route looked =>
      rw [Table.desugarsUnique route path] at looked
      rcases runAsked sound unchased emptySettled ran isAddress looked with
        before | ⟨call, answered, asked⟩
      · simp [lookup, start, Memo.findEmpty] at before
      · exact .asked answered asked (older id r node m member address isAddress looked)
  obtain ⟨ty, looked, described⟩ := nodeDescribed settled node rfl
  cases described with
  | @complete e _ found defined built =>
    generalize same : e.type = c at built
    cases built with
    | @record d info x _ _ _ _ members decl sized aligned args bases fields =>
      refine ⟨ty, d, info, x, members, looked, by simp [found, same], decl, rfl, ?_⟩
      rw [List.forall₂_iff_zip] at fields ⊢
      refine ⟨fields.1, fun {f m} pair => ?_⟩
      have described := fields.2 pair
      have member : m ∈ layoutOrder members := List.mem_mergeSort.mpr (List.of_mem_zip pair).2
      exact ⟨described.name, shown m member f.ty described.child, described.offset, described.width⟩

/- A struct with one pointer, which is asked for before the struct is. -/
def cellTable : Table where
  types := #[⟨.builtin .int, none⟩, ⟨.pointer ⟨0⟩, none⟩, ⟨.record ⟨0⟩, none⟩]
  decls := #[.record ⟨.structKind, "Cell", "Cell", false⟩
    (some ⟨64, 64, [⟨"p", ⟨1⟩, 0, none⟩], [], [], none⟩)]
  roots := []

def cellRecord : Record :=
  ⟨.structKind, "Cell", "Cell", 8, 8, false, [], [], [⟨"p", ⟨1⟩, 0, 0⟩], []⟩

def cellSession : Session where
  graph := {
    nodes := #[.primitive .int32, .pointer ⟨0⟩, .record cellRecord]
    roots := [⟨1⟩, ⟨2⟩]
    slots := Graph.empty.slots.set (Primitive.index .int32) (some ⟨0⟩) }
  memo := ⟨[(⟨2⟩, ⟨2⟩), (⟨1⟩, ⟨1⟩), (⟨0⟩, ⟨0⟩)]⟩
  depth := 0

theorem cellValid : cellTable.validate = .ok () := by decide

theorem cellRun : run cellTable .standard (.start .empty) [.expandRoot ⟨1⟩, .expandRoot ⟨2⟩] =
    .ok ([.ok ⟨1⟩, .ok ⟨2⟩], cellSession) := by
  decide +kernel

theorem cellAddressShown :
    ∃ ty d info x members, cellSession.lookup ty = some ⟨2⟩ ∧
      (cellTable.entry? ty).map TypeEntry.type = some (.record d) ∧
      cellTable.decl? d = some (.record info (some x)) ∧
      cellRecord.members = layoutOrder members ∧
      List.Forall₂ (MemberDescribes (fun part child => ∀ address,
        cellTable.Desugars part address → cellTable.IsAddress address →
          Shows cellTable cellSession
            [(.expandRoot ⟨1⟩, .ok ⟨1⟩), (.expandRoot ⟨2⟩, .ok ⟨2⟩)] ⟨2⟩ address child))
        x.fields members :=
  addressesShown cellValid rfl cellRun rfl

/- So a member that is an address is not always shown as the stub. -/
theorem memberUnstubbed :
    cellTable.validate = .ok () ∧ Options.standard.chasePointers = false ∧
    ∃ s r info x, run cellTable .standard (.start .empty) [.expandRoot ⟨1⟩, .expandRoot ⟨2⟩] =
        .ok ([.ok ⟨1⟩, .ok ⟨2⟩], s) ∧
      s.lookup ⟨2⟩ = some ⟨2⟩ ∧ s.graph.node? ⟨2⟩ = some (.record r) ∧
      cellTable.decl? ⟨0⟩ = some (.record info (some x)) ∧
      ∃ f ∈ x.fields, ∃ m ∈ r.members, m.name = f.name ∧ cellTable.Desugars f.ty ⟨1⟩ ∧
        cellTable.IsAddress ⟨1⟩ ∧ s.graph.node? m.ty = some (.pointer ⟨0⟩) :=
  ⟨cellValid, rfl, cellSession, cellRecord, _, _, cellRun, rfl, rfl, rfl,
    ⟨"p", ⟨1⟩, 0, none⟩, List.mem_cons_self, ⟨"p", ⟨1⟩, 0, 0⟩, List.mem_cons_self, rfl,
    .plain rfl rfl, ⟨_, rfl, nofun⟩, rfl⟩

end ObjectLayout.Session
