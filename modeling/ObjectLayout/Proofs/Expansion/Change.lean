import Mathlib.Logic.Relation
import Mathlib.Data.Finset.Card
import Mathlib.Data.Finset.Range
import ObjectLayout.Expansion.Session
import ObjectLayout.Proofs.Graph.Growth
import ObjectLayout.Proofs.Table.Resolution

/-! The changes that an expansion makes to a session, whether it ends with a node or stops on the
way. A change names what the table says of the type it is made for, so that invariants of sessions
are proved for one change at a time and hold along every expansion. -/
namespace ObjectLayout

def Node.isIncomplete : Node → Bool
  | .incomplete _ => true
  | _ => false

def Node.isPrimitive : Node → Bool
  | .primitive _ => true
  | _ => false

theorem Node.primitiveKind {n : Node} (h : n.isPrimitive = true) : ∃ kind, n = .primitive kind := by
  cases n <;> simp [isPrimitive] at h
  exact ⟨_, rfl⟩

namespace Session

def enter (s : Session) (ty : TypeId) (n : Node) : Session :=
  { s with graph := (s.graph.push n).2, memo := s.memo.insert ty (s.graph.push n).1 }

def share (s : Session) (kind : Primitive) : Session :=
  { s with graph := (s.graph.addPrimitive kind).2 }

def shareFor (s : Session) (ty : TypeId) (kind : Primitive) : Session :=
  { s with
    graph := (s.graph.addPrimitive kind).2
    memo := s.memo.insert ty (s.graph.addPrimitive kind).1 }

def refill (s : Session) (id : NodeId) (r : Record) : Session :=
  { s with graph := s.graph.setRecord id r }

theorem lookupEnter (s : Session) (ty other : TypeId) (n : Node) :
    (s.enter ty n).lookup other = if other = ty then some ⟨s.graph.nodes.size⟩ else s.lookup other :=
  Memo.findInsert s.memo ty other _

theorem lookupEntered (s : Session) (ty : TypeId) (n : Node) :
    (s.enter ty n).lookup ty = some ⟨s.graph.nodes.size⟩ := by
  rw [lookupEnter, if_pos rfl]

theorem nodeEntered (s : Session) (ty : TypeId) (n : Node) :
    (s.enter ty n).graph.node? ⟨s.graph.nodes.size⟩ = some n :=
  (Graph.nodePush s.graph n _).trans (if_pos rfl)

theorem lookupShareFor (s : Session) (ty other : TypeId) (kind : Primitive) :
    (s.shareFor ty kind).lookup other =
      if other = ty then some (s.graph.addPrimitive kind).1 else s.lookup other :=
  Memo.findInsert s.memo ty other _

end Session

namespace Expansion

/-- One change of a session. Nodes below `since` are never written to: only a record that was
allocated later is filled. -/
inductive Change (t : Table) (o : Options) (since : Nat) (s : Session) : Session → Prop where
  | level (depth : Nat) : Change t o since s { s with depth := depth }
  | enter {ty e n} (fresh : s.lookup ty = none) (found : t.entry? ty = some e)
      (plain : e.type.sugarTarget = none) (complete : t.isComplete ty = .ok (!n.isIncomplete))
      (own : n.isPrimitive = false) (closed : ∀ c ∈ n.children, c.raw < s.graph.nodes.size) :
      Change t o since s (s.enter ty n)
  | shareFor {ty e builtin kind} (fresh : s.lookup ty = none) (found : t.entry? ty = some e)
      (same : e.type = .builtin builtin) (measured : builtin.primitive? o.model = some kind) :
      Change t o since s (s.shareFor ty kind)
  | stub : Change t o since s (s.share .stubbedPointer)
  | fill {id old r} (newer : since ≤ id.raw) (found : s.graph.node? id = some (.record old))
      (closed : ∀ c ∈ (Node.record r).children, c.raw < s.graph.nodes.size) :
      Change t o since s (s.refill id r)

abbrev Changes (t : Table) (o : Options) (since : Nat) : Session → Session → Prop :=
  Relation.ReflTransGen (Change t o since)

abbrev Advance (t : Table) (o : Options) (s : Session) : Session → Prop :=
  Changes t o s.graph.nodes.size s

theorem changeOlder {t o a b s s'} (older : a ≤ b) (h : Change t o b s s') : Change t o a s s' := by
  cases h with
  | level depth => exact .level depth
  | enter fresh found plain complete own closed => exact .enter fresh found plain complete own closed
  | shareFor fresh found same measured => exact .shareFor fresh found same measured
  | stub => exact .stub
  | fill newer found closed => exact .fill (Nat.le_trans older newer) found closed

theorem changesOlder {t o a b s s'} (older : a ≤ b) (h : Changes t o b s s') : Changes t o a s s' :=
  Relation.ReflTransGen.mono (fun _ _ => changeOlder older) _ _ h

end Expansion

namespace Session

structure Grown (first s : Session) : Prop where
  graph : s.graph.Holds first.graph
  size : first.graph.nodes.size ≤ s.graph.nodes.size
  memo : ∀ ty id, first.lookup ty = some id → s.lookup ty = some id

theorem grownRefl (s : Session) : Grown s s :=
  ⟨⟨rfl, fun _ _ => rfl, fun _ _ h => h, fun _ _ h => .inl h⟩, Nat.le_refl _, fun _ _ h => h⟩

theorem grownMemoInsert {first s : Session} (h : Grown first s) {ty : TypeId}
    (fresh : s.lookup ty = none) (id : NodeId) (other : TypeId) (old : NodeId)
    (found : first.lookup other = some old) :
    (s.memo.insert ty id).find? other = some old := by
  have kept := h.memo other old found
  rw [Memo.findInsert]
  split
  · rename_i same
    rw [same, fresh] at kept
    contradiction
  · exact kept

theorem grownContinues {first s : Session} (h : Grown first s) : s.graph.Continues first.graph :=
  Graph.holdsContinues h.graph h.size

theorem holdsAddPrimitive {first s : Session} (h : Grown first s) (kind : Primitive) :
    (s.graph.addPrimitive kind).2.Holds first.graph :=
  Graph.continuesHolds (Graph.continuesAddPrimitive (grownContinues h) kind)
    ((Graph.rootsAddPrimitive _ _).trans h.graph.roots)

theorem changeGrown {t o} {first s s' : Session}
    (step : Expansion.Change t o first.graph.nodes.size s s') (h : Grown first s) : Grown first s' := by
  have continued := grownContinues h
  cases step with
  | level depth => exact ⟨h.graph, h.size, h.memo⟩
  | @enter ty e n fresh found plain complete own closed =>
    have pushed := Graph.continuesPush continued n
    exact ⟨Graph.continuesHolds pushed h.graph.roots, pushed.size, grownMemoInsert h fresh _⟩
  | shareFor fresh found same measured =>
    exact ⟨holdsAddPrimitive h _, (Graph.continuesAddPrimitive continued _).size,
      grownMemoInsert h fresh _⟩
  | stub =>
    exact ⟨holdsAddPrimitive h _, (Graph.continuesAddPrimitive continued _).size, h.memo⟩
  | @fill id old r newer found closed =>
    have filled := Graph.continuesSetRecord continued found newer r
    exact ⟨Graph.continuesHolds filled h.graph.roots, filled.size, h.memo⟩

theorem advanceGrown {t o} {s s' : Session} (path : Expansion.Advance t o s s') : Grown s s' := by
  induction path with
  | refl => exact grownRefl s
  | tail _ step ih => exact changeGrown step ih

end Session

namespace Expansion

theorem advanceTrans {t o} {a b c : Session} (first : Advance t o a b) (second : Advance t o b c) :
    Advance t o a c :=
  first.trans (changesOlder (Session.advanceGrown first).size second)

end Expansion

namespace Session

structure Resolved (t : Table) (s : Session) : Prop where
  slots : s.graph.SlotsResolve
  memo : ∀ ty id, s.lookup ty = some id → ty.raw < t.types.size ∧ id.raw < s.graph.nodes.size
  keys : (s.memo.entries.map Prod.fst).Nodup

theorem lookupNone {s : Session} {ty : TypeId} (fresh : s.lookup ty = none) :
    ty ∉ s.memo.entries.map Prod.fst := by
  intro member
  obtain ⟨e, inside, same⟩ := List.mem_map.mp member
  have absent := List.lookup_eq_none_iff.mp fresh e inside
  simp [same] at absent

theorem addPrimitiveResolves {g : Graph} (h : g.SlotsResolve) (kind : Primitive) :
    (g.addPrimitive kind).1.raw < (g.addPrimitive kind).2.nodes.size ∧
    (g.addPrimitive kind).2.SlotsResolve := by
  cases filled : g.slot kind with
  | some id =>
    rw [Graph.addPrimitiveOld filled]
    exact ⟨h kind id filled, h⟩
  | none =>
    have own : (g.addPrimitive kind).1.raw < (g.addPrimitive kind).2.nodes.size := by
      simp [Graph.addPrimitiveNew filled, Graph.push]
    refine ⟨own, ?_⟩
    intro other id found
    rw [Graph.slotAddPrimitive] at found
    split at found
    · cases found
      exact own
    · exact Nat.lt_of_lt_of_le (h other id found) (Graph.sizeAddPrimitive g kind)

theorem changeResolved {t o since} {s s' : Session} (step : Expansion.Change t o since s s')
    (h : Resolved t s) : Resolved t s' := by
  cases step with
  | level depth => exact ⟨h.slots, h.memo, h.keys⟩
  | @enter ty e n fresh found plain complete own closed =>
    have size : (s.enter ty n).graph.nodes.size = s.graph.nodes.size + 1 := Graph.sizePush s.graph n
    refine ⟨?_, ?_, List.nodup_cons.mpr ⟨lookupNone fresh, h.keys⟩⟩
    · intro kind id filled
      have inside := h.slots kind id filled
      omega
    · intro other id looked
      rw [lookupEnter] at looked
      split at looked
      · rename_i same
        cases looked
        rw [same]
        exact ⟨Table.entryInRange found, Nat.lt_of_lt_of_eq (Nat.lt_succ_self _) size.symm⟩
      · have inside := h.memo other id looked
        exact ⟨inside.1, by omega⟩
  | @shareFor ty e builtin kind fresh found same measured =>
    obtain ⟨own, slots⟩ := addPrimitiveResolves h.slots kind
    refine ⟨slots, ?_, List.nodup_cons.mpr ⟨lookupNone fresh, h.keys⟩⟩
    intro other id looked
    rw [lookupShareFor] at looked
    split at looked
    · rename_i same
      cases looked
      rw [same]
      exact ⟨Table.entryInRange found, own⟩
    · have inside := h.memo other id looked
      exact ⟨inside.1, Nat.lt_of_lt_of_le inside.2 (Graph.sizeAddPrimitive _ kind)⟩
  | stub =>
    refine ⟨(addPrimitiveResolves h.slots _).2, ?_, h.keys⟩
    intro ty id looked
    have inside := h.memo ty id looked
    exact ⟨inside.1, Nat.lt_of_lt_of_le inside.2 (Graph.sizeAddPrimitive _ _)⟩
  | @fill id old r newer found closed =>
    have size := Graph.sizeSetRecord s.graph id r
    refine ⟨fun kind slot filled => ?_, fun ty slot looked => ?_, h.keys⟩
    · exact size ▸ h.slots kind slot filled
    · exact size ▸ h.memo ty slot looked

theorem changesResolved {t o since} {s s' : Session} (path : Expansion.Changes t o since s s')
    (h : Resolved t s) : Resolved t s' := by
  induction path with
  | refl => exact h
  | tail _ step ih => exact changeResolved step ih

end Session
end ObjectLayout
