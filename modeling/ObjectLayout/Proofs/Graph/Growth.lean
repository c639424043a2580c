import ObjectLayout.Graph.Basic

/-! How the steps of a graph act on what can be read from it: its nodes, its roots and its slots.
A graph is known by these, and rolling back to a mark takes away exactly what came after it. -/
namespace ObjectLayout

theorem Primitive.indexAll (i : Fin count) : ∃ kind : Primitive, kind.index = i := by
  have h : (all[i]).index = i := by decide +revert
  exact ⟨all[i], h⟩

namespace Graph

theorem equalParts {a b : Graph} (nodes : ∀ id, a.node? id = b.node? id) (roots : a.roots = b.roots)
    (slots : ∀ kind, a.slot kind = b.slot kind) : a = b := by
  obtain ⟨an, ar, as⟩ := a
  obtain ⟨bn, br, bs⟩ := b
  have sameNodes : an = bn := Array.ext_getElem? (fun i => nodes ⟨i⟩)
  have sameSlots : as = bs := by
    apply Vector.ext
    intro i inside
    obtain ⟨kind, at_i⟩ := Primitive.indexAll ⟨i, inside⟩
    have same := slots kind
    simp only [slot, at_i] at same
    exact same
  cases sameNodes
  cases sameSlots
  cases roots
  rfl

theorem nodeInside {g : Graph} {id : NodeId} {n : Node} (found : g.node? id = some n) :
    id.raw < g.nodes.size := by
  obtain ⟨inside, _⟩ := Array.getElem?_eq_some_iff.mp found
  exact inside

theorem nodeOfInside {g : Graph} {id : NodeId} (inside : id.raw < g.nodes.size) :
    ∃ n, g.node? id = some n :=
  ⟨g.nodes[id.raw], Array.getElem?_eq_getElem inside⟩

theorem nodePush (g : Graph) (n : Node) (id : NodeId) :
    (g.push n).2.node? id = if id.raw = g.nodes.size then some n else g.node? id := by
  simp only [push, node?, Array.getElem?_push]

theorem nodePushOld {g : Graph} {id : NodeId} (inside : id.raw < g.nodes.size) (n : Node) :
    (g.push n).2.node? id = g.node? id := by
  rw [nodePush, if_neg (by omega)]

theorem sizePush (g : Graph) (n : Node) : (g.push n).2.nodes.size = g.nodes.size + 1 := by
  simp [push]

theorem slotPush (g : Graph) (n : Node) (kind : Primitive) : (g.push n).2.slot kind = g.slot kind :=
  rfl

theorem addPrimitiveOld {g : Graph} {kind : Primitive} {id : NodeId} (found : g.slot kind = some id) :
    g.addPrimitive kind = (id, g) := by
  simp [addPrimitive, found]

theorem addPrimitiveNew {g : Graph} {kind : Primitive} (absent : g.slot kind = none) :
    g.addPrimitive kind = (⟨g.nodes.size⟩,
      { (g.push (.primitive kind)).2 with
        slots := g.slots.set kind.index (some ⟨g.nodes.size⟩) kind.index.isLt }) := by
  simp [addPrimitive, absent, push]

theorem slotAddPrimitive (g : Graph) (kind other : Primitive) :
    (g.addPrimitive kind).2.slot other =
      if other = kind then some (g.addPrimitive kind).1 else g.slot other := by
  cases found : g.slot kind with
  | some id =>
    rw [addPrimitiveOld found]
    split
    · rename_i same
      rw [same, found]
    · rfl
  | none =>
    simp only [addPrimitiveNew found, slot]
    split
    · rename_i same
      simp [same]
    · rename_i distinct
      have apart : kind.index.val ≠ other.index.val := fun same =>
        distinct (Primitive.indexInjective (Fin.ext same)).symm
      simp [Vector.getElem_set_ne _ _ apart]

theorem nodeAddPrimitive (g : Graph) (kind : Primitive) (id : NodeId) :
    (g.addPrimitive kind).2.node? id =
      if g.slot kind = none ∧ id.raw = g.nodes.size then some (.primitive kind) else g.node? id := by
  cases found : g.slot kind with
  | some old => simp [addPrimitiveOld found]
  | none =>
    rw [addPrimitiveNew found]
    simp only [true_and]
    exact nodePush g (.primitive kind) id

theorem sizeAddPrimitive (g : Graph) (kind : Primitive) :
    g.nodes.size ≤ (g.addPrimitive kind).2.nodes.size := by
  cases found : g.slot kind with
  | some id => simp [addPrimitiveOld found]
  | none => simp [addPrimitiveNew found, push]

theorem rootsAddPrimitive (g : Graph) (kind : Primitive) : (g.addPrimitive kind).2.roots = g.roots := by
  cases found : g.slot kind with
  | some id => simp [addPrimitiveOld found]
  | none => simp [addPrimitiveNew found, push]

def setRecord (g : Graph) (id : NodeId) (r : Record) : Graph :=
  { g with nodes := g.nodes.setIfInBounds id.raw (.record r) }

theorem modifyRecordFound {g : Graph} {id : NodeId} {r : Record}
    (found : g.node? id = some (.record r)) (f : Record → Record) :
    g.modifyRecord id f = some (g.setRecord id (f r)) := by
  simp [modifyRecord, found, setRecord]

theorem nodeSetRecord {g : Graph} {id : NodeId} (inside : id.raw < g.nodes.size) (r : Record)
    (other : NodeId) :
    (g.setRecord id r).node? other = if other = id then some (.record r) else g.node? other := by
  simp only [setRecord, node?]
  split
  · rename_i same
    rw [same, Array.getElem?_setIfInBounds_self_of_lt inside]
  · rename_i distinct
    have apart : id.raw ≠ other.raw := fun same => distinct (congrArg NodeId.mk same.symm)
    rw [Array.getElem?_setIfInBounds_ne apart]

theorem sizeSetRecord (g : Graph) (id : NodeId) (r : Record) :
    (g.setRecord id r).nodes.size = g.nodes.size := by
  simp [setRecord]

theorem nodeRollback (g : Graph) (m : Mark) (id : NodeId) :
    (g.rollback m).node? id = if id.raw < m.nodes then g.node? id else none := by
  simp only [rollback, node?, Array.take_eq_extract, Array.getElem?_extract, Nat.zero_add,
    Nat.sub_zero]
  by_cases inside : id.raw < g.nodes.size
  · by_cases older : id.raw < m.nodes
    · rw [if_pos (Nat.lt_min.mpr ⟨older, inside⟩), if_pos older]
    · rw [if_neg (fun both => older (Nat.lt_min.mp both).1), if_neg older]
  · have absent : g.nodes[id.raw]? = none := Array.getElem?_eq_none (Nat.not_lt.mp inside)
    simp [absent]

theorem slotRollback (g : Graph) (m : Mark) (kind : Primitive) :
    (g.rollback m).slot kind = (g.slot kind).filter (fun id => !m.isNewer id) := by
  simp [rollback, slot]

theorem slotRollbackSome {g : Graph} {m : Mark} {kind : Primitive} {id : NodeId} :
    (g.rollback m).slot kind = some id ↔ g.slot kind = some id ∧ id.raw < m.nodes := by
  rw [slotRollback, Option.filter_eq_some_iff]
  simp [Mark.isNewer]

def SlotsResolve (g : Graph) : Prop := ∀ kind id, g.slot kind = some id → id.raw < g.nodes.size

theorem emptySlot (kind : Primitive) : empty.slot kind = none := by
  simp [empty, slot]

theorem emptySlotsResolve : empty.SlotsResolve := by
  intro kind id found
  simp [emptySlot] at found

structure Holds (later earlier : Graph) : Prop where
  roots : later.roots = earlier.roots
  node : ∀ id, id.raw < earlier.nodes.size → later.node? id = earlier.node? id
  slot : ∀ kind id, earlier.slot kind = some id → later.slot kind = some id
  slotNew : ∀ kind id, later.slot kind = some id →
    earlier.slot kind = some id ∨ earlier.nodes.size ≤ id.raw

theorem rollbackRestores {later earlier : Graph} (h : later.Holds earlier)
    (resolved : earlier.SlotsResolve) : later.rollback earlier.mark = earlier := by
  apply equalParts
  · intro id
    rw [nodeRollback]
    split
    · rename_i inside
      exact h.node id inside
    · rename_i outside
      exact (Array.getElem?_eq_none (Nat.not_lt.mp outside)).symm
  · simp [rollback, mark, h.roots]
  · intro kind
    apply Option.ext
    intro id
    rw [slotRollbackSome]
    constructor
    · rintro ⟨found, older⟩
      rcases h.slotNew kind id found with old | newer
      · exact old
      · -- a slot filled since then names a dropped node
        exact absurd older (Nat.not_lt.mpr newer)
    · intro found
      exact ⟨h.slot kind id found, resolved kind id found⟩

structure Continues (later earlier : Graph) : Prop where
  size : earlier.nodes.size ≤ later.nodes.size
  roots : earlier.roots <+: later.roots
  node : ∀ id, id.raw < earlier.nodes.size → later.node? id = earlier.node? id
  slot : ∀ kind id, earlier.slot kind = some id → later.slot kind = some id
  slotNew : ∀ kind id, later.slot kind = some id →
    earlier.slot kind = some id ∨ earlier.nodes.size ≤ id.raw

section
variable {later earlier : Graph}

theorem continuesRefl (g : Graph) : g.Continues g :=
  ⟨Nat.le_refl _, List.prefix_rfl, fun _ _ => rfl, fun _ _ h => h, fun _ _ h => .inl h⟩

theorem continuesHolds (h : later.Continues earlier) (roots : later.roots = earlier.roots) :
    later.Holds earlier :=
  ⟨roots, h.node, h.slot, h.slotNew⟩

theorem holdsContinues (h : later.Holds earlier) (size : earlier.nodes.size ≤ later.nodes.size) :
    later.Continues earlier :=
  ⟨size, h.roots ▸ List.prefix_rfl, h.node, h.slot, h.slotNew⟩

theorem continuesRestores (h : later.Continues earlier) (resolved : earlier.SlotsResolve) :
    later.rollback earlier.mark = earlier := by
  have held : ({ later with roots := earlier.roots } : Graph).Holds earlier :=
    ⟨rfl, h.node, h.slot, h.slotNew⟩
  have same : later.rollback earlier.mark =
      ({ later with roots := earlier.roots } : Graph).rollback earlier.mark := by
    simp [rollback, mark, ← List.prefix_iff_eq_take.mp h.roots]
  rw [same]
  exact rollbackRestores held resolved

theorem continuesPush (h : later.Continues earlier) (n : Node) : (later.push n).2.Continues earlier := by
  have size := h.size
  refine ⟨?_, h.roots, fun id inside => ?_, h.slot, h.slotNew⟩
  · rw [sizePush]
    omega
  · exact (nodePushOld (by omega) n).trans (h.node id inside)

theorem continuesAddPrimitive (h : later.Continues earlier) (kind : Primitive) :
    (later.addPrimitive kind).2.Continues earlier := by
  have size := h.size
  refine ⟨Nat.le_trans size (sizeAddPrimitive later kind), ?_, ?_, ?_, ?_⟩
  · rw [rootsAddPrimitive]
    exact h.roots
  · intro id inside
    rw [nodeAddPrimitive, if_neg (by omega), h.node id inside]
  · intro other id found
    have kept := h.slot other id found
    rw [slotAddPrimitive]
    split
    · rename_i same
      rw [same] at kept
      rw [addPrimitiveOld kept]
    · exact kept
  · intro other id found
    rw [slotAddPrimitive] at found
    split at found
    · rename_i same
      subst same
      cases filled : later.slot other with
      | some old =>
        rw [addPrimitiveOld filled] at found
        rw [found] at filled
        exact h.slotNew other id filled
      | none =>
        rw [addPrimitiveNew filled] at found
        cases found
        exact .inr size
    · exact h.slotNew other id found

theorem continuesAddRoot (h : later.Continues earlier) (id : NodeId) :
    (later.addRoot id).Continues earlier :=
  ⟨h.size, h.roots.trans (List.prefix_append _ _), h.node, h.slot, h.slotNew⟩

theorem continuesSetRecord (h : later.Continues earlier) {id : NodeId} {old : Record}
    (found : later.node? id = some (.record old)) (newer : earlier.nodes.size ≤ id.raw) (r : Record) :
    (later.setRecord id r).Continues earlier := by
  refine ⟨(sizeSetRecord later id r).symm ▸ h.size, h.roots, fun other inside => ?_, h.slot, h.slotNew⟩
  have apart : other ≠ id := fun same => by
    rw [same] at inside
    omega
  exact (nodeSetRecord (nodeInside found) r other).trans ((if_neg apart).trans (h.node other inside))

theorem continuesRollback (h : later.Continues earlier) (resolved : earlier.SlotsResolve) {m : Mark}
    (nodes : earlier.nodes.size ≤ m.nodes) (roots : earlier.roots.length ≤ m.roots) :
    (later.rollback m).Continues earlier := by
  refine ⟨?_, List.prefix_take_iff.mpr ⟨h.roots, roots⟩, fun id inside => ?_, fun kind id found => ?_,
    fun kind id found => ?_⟩
  · have size := h.size
    simp only [rollback, Array.take_eq_extract, Array.size_extract]
    omega
  · rw [nodeRollback, if_pos (Nat.lt_of_lt_of_le inside nodes), h.node id inside]
  · exact slotRollbackSome.mpr
      ⟨h.slot kind id found, Nat.lt_of_lt_of_le (resolved kind id found) nodes⟩
  · exact h.slotNew kind id (slotRollbackSome.mp found).1

end

end Graph
end ObjectLayout
