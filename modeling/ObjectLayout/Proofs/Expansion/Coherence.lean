import ObjectLayout.Proofs.Expansion.Change

/-! The correspondence of types and nodes in a session over a graph of its own. A type has at most
one node, a node that is no primitive has exactly one type, and the slots name exactly the nodes of
the primitives. This holds after every change, so also where an expansion has stopped half-way. -/
namespace ObjectLayout

namespace Graph

def Accurate (g : Graph) : Prop :=
  ∀ kind id, g.slot kind = some id ↔ g.node? id = some (.primitive kind)

theorem emptyAccurate : empty.Accurate := by
  intro kind id
  rw [emptySlot]
  simp [node?, empty]

theorem pushAccurate {g : Graph} (h : g.Accurate) {n : Node} (own : n.isPrimitive = false) :
    (g.push n).2.Accurate := by
  intro kind id
  rw [slotPush, nodePush, h kind id]
  split
  · rename_i last
    constructor
    · intro found
      exact absurd (nodeInside found) (by omega)
    · intro same
      cases Option.some.inj same
      contradiction
  · rfl

theorem setRecordAccurate {g : Graph} (h : g.Accurate) {id : NodeId} {old : Record}
    (found : g.node? id = some (.record old)) (r : Record) : (g.setRecord id r).Accurate := by
  intro kind other
  change g.slot kind = some other ↔ _
  rw [nodeSetRecord (nodeInside found), h kind other]
  split
  · rename_i same
    simp [same, found]
  · rfl

theorem addPrimitiveKept {g : Graph} {id : NodeId} {n : Node} (found : g.node? id = some n)
    (kind : Primitive) : (g.addPrimitive kind).2.node? id = some n := by
  have inside := nodeInside found
  rw [nodeAddPrimitive, if_neg (by omega), found]

theorem addPrimitiveNode {g : Graph} (h : g.Accurate) (kind : Primitive) :
    (g.addPrimitive kind).2.node? (g.addPrimitive kind).1 = some (.primitive kind) := by
  cases filled : g.slot kind with
  | some id =>
    rw [addPrimitiveOld filled]
    exact (h kind id).mp filled
  | none => simp [addPrimitiveNew filled, node?, push]

theorem addPrimitiveFrom {g : Graph} {kind : Primitive} {id : NodeId} {n : Node}
    (found : (g.addPrimitive kind).2.node? id = some n) :
    g.node? id = some n ∨ n = .primitive kind ∧ id = (g.addPrimitive kind).1 := by
  rw [nodeAddPrimitive] at found
  split at found
  · rename_i last
    cases Option.some.inj found
    refine .inr ⟨rfl, ?_⟩
    rw [addPrimitiveNew last.1, ← last.2]
  · exact .inl found

theorem addPrimitiveAccurate {g : Graph} (h : g.Accurate) (kind : Primitive) :
    (g.addPrimitive kind).2.Accurate := by
  intro other id
  rw [slotAddPrimitive]
  constructor
  · intro filled
    split at filled
    · rename_i same
      cases filled
      rw [same]
      exact addPrimitiveNode h kind
    · exact addPrimitiveKept ((h other id).mp filled) kind
  · intro found
    rcases addPrimitiveFrom found with old | ⟨same, last⟩
    · split
      · rename_i equal
        have filled := (h other id).mpr old
        rw [equal] at filled
        rw [addPrimitiveOld filled]
      · exact (h other id).mpr old
    · cases same
      rw [if_pos rfl, last]

theorem rollbackAccurate {g : Graph} (h : g.Accurate) (m : Mark) : (g.rollback m).Accurate := by
  intro kind id
  rw [slotRollbackSome, nodeRollback, h kind id]
  split
  · rename_i older
    simp [older]
  · rename_i newer
    simp [newer]

end Graph

def Table.MeasuredAs (t : Table) (o : Options) (ty : TypeId) (kind : Primitive) : Prop :=
  ∃ e builtin, t.entry? ty = some e ∧ e.type = .builtin builtin ∧
    builtin.primitive? o.model = some kind

namespace Session

structure Entered (t : Table) (o : Options) (s : Session) (ty : TypeId) (id : NodeId) : Prop where
  plain : ∃ e, t.entry? ty = some e ∧ e.type.sugarTarget = none
  node : ∃ n, s.graph.node? id = some n ∧ t.isComplete ty = .ok (!n.isIncomplete)
  builtin : ∀ kind, s.graph.node? id = some (.primitive kind) → t.MeasuredAs o ty kind

structure Coherent (t : Table) (o : Options) (s : Session) : Prop where
  slots : s.graph.Accurate
  entered : ∀ ty id, s.lookup ty = some id → Entered t o s ty id
  own : ∀ a b id n, s.lookup a = some id → s.lookup b = some id → s.graph.node? id = some n →
    n.isPrimitive = false → a = b
  covered : ∀ id n, s.graph.node? id = some n →
    n = .primitive .stubbedPointer ∨ ∃ ty, s.lookup ty = some id

theorem enteredInside {t o} {s : Session} {ty id} (h : Entered t o s ty id) :
    id.raw < s.graph.nodes.size := by
  obtain ⟨n, found, _⟩ := h.node
  exact Graph.nodeInside found

theorem enteredKept {t o} {s s' : Session} {ty id} (h : Entered t o s ty id)
    (same : s'.graph.node? id = s.graph.node? id) : Entered t o s' ty id := by
  refine ⟨h.plain, ?_, ?_⟩
  · rw [same]
    exact h.node
  · rw [same]
    exact h.builtin

theorem startCoherent (t : Table) (o : Options) : Coherent t o (.start .empty) := by
  refine ⟨Graph.emptyAccurate, ?_, ?_, ?_⟩
  · intro ty id looked
    simp [lookup, start, Memo.findEmpty] at looked
  · intro a b id n looked
    simp [lookup, start, Memo.findEmpty] at looked
  · intro id n found
    simp [start, Graph.empty, Graph.node?] at found

theorem lookupFresh {s : Session} {ty other : TypeId} {id : NodeId} (fresh : s.lookup ty = none)
    (looked : s.lookup other = some id) : other ≠ ty := by
  intro same
  rw [same, fresh] at looked
  contradiction

theorem enterCoherent {t o} {s : Session} (h : Coherent t o s) {ty : TypeId} {e : TypeEntry}
    {n : Node} (fresh : s.lookup ty = none) (found : t.entry? ty = some e)
    (plain : e.type.sugarTarget = none) (complete : t.isComplete ty = .ok (!n.isIncomplete))
    (own : n.isPrimitive = false) : Coherent t o (s.enter ty n) := by
  have node : ∀ id, (s.enter ty n).graph.node? id =
      if id.raw = s.graph.nodes.size then some n else s.graph.node? id := Graph.nodePush s.graph n
  have old : ∀ other id, s.lookup other = some id → id.raw ≠ s.graph.nodes.size := by
    intro other id looked
    have inside := enteredInside (h.entered other id looked)
    omega
  refine ⟨Graph.pushAccurate h.slots own, ?_, ?_, ?_⟩
  · intro other id looked
    rw [lookupEnter] at looked
    split at looked
    · rename_i same
      cases looked
      rw [same]
      refine ⟨⟨e, found, plain⟩, ⟨n, by rw [node, if_pos rfl], complete⟩, ?_⟩
      intro kind last
      rw [node, if_pos rfl] at last
      cases Option.some.inj last
      contradiction
    · exact enteredKept (h.entered other id looked) (by rw [node, if_neg (old other id looked)])
  · intro a b id m first second at_id other
    rw [lookupEnter] at first second
    split at first <;> split at second
    · rename_i sameA sameB
      rw [sameA, sameB]
    · cases first
      exact absurd rfl (old b _ second)
    · cases second
      exact absurd rfl (old a _ first)
    · rw [node, if_neg (old a id first)] at at_id
      exact h.own a b id m first second at_id other
  · intro id m at_id
    rw [node] at at_id
    split at at_id
    · rename_i last
      refine .inr ⟨ty, ?_⟩
      rw [lookupEnter, if_pos rfl, ← last]
    · rcases h.covered id m at_id with stub | ⟨other, looked⟩
      · exact .inl stub
      · refine .inr ⟨other, ?_⟩
        rw [lookupEnter, if_neg (lookupFresh fresh looked), looked]

theorem enteredShared {t o} {s s' : Session} (h : Coherent t o s) {kind : Primitive}
    (same : s'.graph = (s.graph.addPrimitive kind).2) {ty id} (looked : s.lookup ty = some id) :
    Entered t o s' ty id := by
  have entered := h.entered ty id looked
  obtain ⟨n, found, _⟩ := entered.node
  refine enteredKept entered ?_
  rw [same, found]
  exact Graph.addPrimitiveKept found kind

theorem shareForCoherent {t o} {s : Session} (h : Coherent t o s) {ty : TypeId} {e : TypeEntry}
    {builtin : Builtin} {kind : Primitive} (fresh : s.lookup ty = none)
    (found : t.entry? ty = some e) (same : e.type = .builtin builtin)
    (measured : builtin.primitive? o.model = some kind) : Coherent t o (s.shareFor ty kind) := by
  have shared := Graph.addPrimitiveNode h.slots kind
  have complete : t.isComplete ty = .ok true :=
    Table.plainComplete found (by simp [Table.layoutNext, same]) (by simp [same]) (by simp [same])
      (by simp [same])
  refine ⟨Graph.addPrimitiveAccurate h.slots kind, ?_, ?_, ?_⟩
  · intro other id looked
    rw [lookupShareFor] at looked
    split at looked
    · rename_i equal
      cases looked
      rw [equal]
      refine ⟨⟨e, found, by simp [TypeClass.sugarTarget, same]⟩, ⟨_, shared, complete⟩, ?_⟩
      intro other last
      rw [show (s.shareFor ty kind).graph = (s.graph.addPrimitive kind).2 from rfl, shared] at last
      cases Option.some.inj last
      exact ⟨e, builtin, found, same, measured⟩
    · exact enteredShared h rfl looked
  · intro a b id n first second at_id other
    have old : s.graph.node? id = some n := by
      rcases Graph.addPrimitiveFrom at_id with old | ⟨primitive, _⟩
      · exact old
      · rw [primitive] at other
        contradiction
    have distinct : id ≠ (s.graph.addPrimitive kind).1 := by
      intro equal
      rw [equal, show (s.shareFor ty kind).graph = (s.graph.addPrimitive kind).2 from rfl, shared]
        at at_id
      cases Option.some.inj at_id
      contradiction
    rw [lookupShareFor] at first second
    split at first
    · exact absurd (Option.some.inj first).symm distinct
    · split at second
      · exact absurd (Option.some.inj second).symm distinct
      · exact h.own a b id n first second old other
  · intro id n at_id
    rcases Graph.addPrimitiveFrom at_id with old | ⟨_, last⟩
    · rcases h.covered id n old with stub | ⟨other, looked⟩
      · exact .inl stub
      · refine .inr ⟨other, ?_⟩
        rw [lookupShareFor, if_neg (lookupFresh fresh looked), looked]
    · refine .inr ⟨ty, ?_⟩
      rw [lookupShareFor, if_pos rfl, last]

theorem stubCoherent {t o} {s : Session} (h : Coherent t o s) :
    Coherent t o (s.share .stubbedPointer) := by
  refine ⟨Graph.addPrimitiveAccurate h.slots _, ?_, ?_, ?_⟩
  · intro ty id looked
    exact enteredShared h rfl looked
  · intro a b id n first second at_id other
    rcases Graph.addPrimitiveFrom at_id with old | ⟨primitive, _⟩
    · exact h.own a b id n first second old other
    · rw [primitive] at other
      contradiction
  · intro id n at_id
    rcases Graph.addPrimitiveFrom at_id with old | ⟨primitive, _⟩
    · exact h.covered id n old
    · exact .inl primitive

theorem refillCoherent {t o} {s : Session} (h : Coherent t o s) {id : NodeId} {old : Record}
    (found : s.graph.node? id = some (.record old)) (r : Record) : Coherent t o (s.refill id r) := by
  have node : ∀ other, (s.refill id r).graph.node? other =
      if other = id then some (.record r) else s.graph.node? other :=
    Graph.nodeSetRecord (Graph.nodeInside found) r
  refine ⟨Graph.setRecordAccurate h.slots found r, ?_, ?_, ?_⟩
  · intro ty other looked
    have entered := h.entered ty other looked
    by_cases same : other = id
    · subst same
      obtain ⟨n, at_n, complete⟩ := entered.node
      rw [found] at at_n
      cases Option.some.inj at_n
      refine ⟨entered.plain, ⟨.record r, by rw [node, if_pos rfl], complete⟩, ?_⟩
      intro kind filled
      rw [node, if_pos rfl] at filled
      simp at filled
    · exact enteredKept entered (by rw [node, if_neg same])
  · intro a b other n first second at_other own
    by_cases same : other = id
    · subst same
      exact h.own a b other (.record old) first second found rfl
    · rw [node, if_neg same] at at_other
      exact h.own a b other n first second at_other own
  · intro other n at_other
    by_cases same : other = id
    · subst same
      rcases h.covered other (.record old) found with stub | looked
      · contradiction
      · exact .inr looked
    · rw [node, if_neg same] at at_other
      exact h.covered other n at_other

theorem changeCoherent {t o since} {s s' : Session} (step : Expansion.Change t o since s s')
    (h : Coherent t o s) : Coherent t o s' := by
  cases step with
  | level depth =>
    exact ⟨h.slots, fun ty id looked => enteredKept (h.entered ty id looked) rfl, h.own, h.covered⟩
  | enter fresh found plain complete own closed =>
    exact enterCoherent h fresh found plain complete own
  | shareFor fresh found same measured => exact shareForCoherent h fresh found same measured
  | stub => exact stubCoherent h
  | fill newer found closed => exact refillCoherent h found _

theorem changesCoherent {t o since} {s s' : Session} (path : Expansion.Changes t o since s s')
    (h : Coherent t o s) : Coherent t o s' := by
  induction path with
  | refl => exact h
  | tail _ step ih => exact changeCoherent step ih

/- A type is entered once, so what is kept of the memo does not uncover an older entry. -/
theorem memoFindKeep {m : Memo} (keys : (m.entries.map Prod.fst).Nodup) (test : NodeId → Bool)
    (ty : TypeId) : (m.keep test).find? ty = (m.find? ty).filter test := by
  obtain ⟨entries⟩ := m
  simp only [Memo.keep, Memo.find?]
  induction entries with
  | nil => rfl
  | cons e rest ih =>
    obtain ⟨key, id⟩ := e
    obtain ⟨absent, others⟩ := List.nodup_cons.mp keys
    by_cases same : ty = key
    · subst same
      have gone : rest.lookup ty = none := by
        rw [List.lookup_eq_none_iff]
        intro e member
        have apart : ty ≠ e.1 := fun equal => absent (List.mem_map.mpr ⟨e, member, equal.symm⟩)
        simpa using apart
      cases kept : test id with
      | true => simp [kept, Option.filter]
      | false =>
        have dropped := ih others
        rw [gone] at dropped
        simpa [kept, Option.filter] using dropped
    · have apart : (ty == key) = false := beq_false_of_ne same
      cases kept : test id with
      | true => simpa [kept, List.lookup_cons, apart] using ih others
      | false => simpa [kept, List.lookup_cons, apart] using ih others

theorem lookupRollback {t} {s : Session} (resolved : Resolved t s) {m : Mark} {ty : TypeId}
    {id : NodeId} : (s.rollback m).lookup ty = some id ↔ s.lookup ty = some id ∧ id.raw < m.nodes := by
  change (s.memo.keep _).find? ty = some id ↔ _
  rw [memoFindKeep resolved.keys, Option.filter_eq_some_iff]
  simp [Mark.isNewer, lookup]

theorem rollbackResolved {t} {s : Session} (h : Resolved t s) {m : Mark}
    (older : m.nodes ≤ s.graph.nodes.size) : Resolved t (s.rollback m) := by
  have size : (s.rollback m).graph.nodes.size = m.nodes := by
    simp only [rollback, Graph.rollback, Array.take_eq_extract, Array.size_extract]
    omega
  refine ⟨?_, ?_, ?_⟩
  · intro kind id filled
    rw [size]
    exact (Graph.slotRollbackSome.mp filled).2
  · intro ty id looked
    rw [size]
    obtain ⟨found, kept⟩ := (lookupRollback h).mp looked
    exact ⟨(h.memo ty id found).1, kept⟩
  · exact h.keys.sublist (List.filter_sublist.map Prod.fst)

theorem rollbackCoherent {t o} {s : Session} (h : Coherent t o s) (resolved : Resolved t s)
    (m : Mark) : Coherent t o (s.rollback m) := by
  have node : ∀ {id}, id.raw < m.nodes → (s.rollback m).graph.node? id = s.graph.node? id :=
    fun {id} older => (Graph.nodeRollback s.graph m id).trans (if_pos older)
  have old : ∀ {id n}, (s.rollback m).graph.node? id = some n →
      s.graph.node? id = some n ∧ id.raw < m.nodes := by
    intro id n found
    change (s.graph.rollback m).node? id = some n at found
    rw [Graph.nodeRollback] at found
    split at found
    · exact ⟨found, by assumption⟩
    · contradiction
  refine ⟨Graph.rollbackAccurate h.slots m, ?_, ?_, ?_⟩
  · intro ty id looked
    obtain ⟨found, older⟩ := (lookupRollback resolved).mp looked
    exact enteredKept (h.entered ty id found) (node older)
  · intro a b id n first second at_id other
    exact h.own a b id n ((lookupRollback resolved).mp first).1
      ((lookupRollback resolved).mp second).1 (old at_id).1 other
  · intro id n at_id
    obtain ⟨found, older⟩ := old at_id
    rcases h.covered id n found with stub | ⟨ty, looked⟩
    · exact .inl stub
    · exact .inr ⟨ty, (lookupRollback resolved).mpr ⟨looked, older⟩⟩

end Session
end ObjectLayout
