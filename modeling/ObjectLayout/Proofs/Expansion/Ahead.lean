import ObjectLayout.Proofs.Expansion.Coherence
import ObjectLayout.Proofs.Expansion.Together

/-! Sessions that differ in builtin types only. One is ahead of the other if it has entered some of
them already, each with the node that the other would find for it too. Nothing that is expanded can
tell the two apart. -/
namespace ObjectLayout

namespace Session

structure Ahead (t : Table) (o : Options) (s r : Session) : Prop where
  graph : s.graph = r.graph
  memo : ∀ ty id, r.lookup ty = some id → s.lookup ty = some id
  extra : ∀ ty id, s.lookup ty = some id →
    r.lookup ty = some id ∨ ∃ kind, t.MeasuredAs o ty kind ∧ r.graph.slot kind = some id

variable {t : Table} {o : Options}

theorem aheadRefl (s : Session) : Ahead t o s s := ⟨rfl, fun _ _ h => h, fun _ _ h => .inl h⟩

theorem aheadTrans {a b c : Session} (first : Ahead t o a b) (second : Ahead t o b c) :
    Ahead t o a c := by
  refine ⟨first.graph.trans second.graph,
    fun ty id looked => first.memo ty id (second.memo ty id looked), ?_⟩
  intro ty id looked
  rcases first.extra ty id looked with here | ⟨kind, measured, slot⟩
  · exact second.extra ty id here
  · exact .inr ⟨kind, measured, second.graph ▸ slot⟩

theorem aheadLookup {s r : Session} (h : Ahead t o s r) {ty : TypeId}
    (other : ∀ kind, ¬ t.MeasuredAs o ty kind) : s.lookup ty = r.lookup ty := by
  apply Option.ext
  intro id
  constructor
  · intro looked
    rcases h.extra ty id looked with known | ⟨kind, measured, _⟩
    · exact known
    · exact absurd measured (other kind)
  · exact h.memo ty id

theorem slotShared {g : Graph} {kind other : Primitive} {id : NodeId} (slot : g.slot other = some id) :
    (g.addPrimitive kind).2.slot other = some id :=
  (holdsAddPrimitive (grownRefl (start g)) kind).slot other id slot

end Session

namespace Expansion

structure Abreast (t : Table) (o : Options) (s r : Session) : Prop where
  ahead : s.Ahead t o r
  depth : s.depth = r.depth

variable {t : Table} {o : Options}

theorem abreastLevel : Level (Abreast t o) := by
  intro s r move h
  exact ⟨⟨h.ahead.graph, h.ahead.memo, h.ahead.extra⟩, congrArg move h.depth⟩

theorem togetherGraph {α : Type} {x : Step α} (make : Graph → α × Graph)
    (runs : ∀ s, x s = .ok (make s.graph).1 { s with graph := (make s.graph).2 })
    (slots : ∀ g kind id, g.slot kind = some id → (make g).2.slot kind = some id) :
    Together (Abreast t o) x x := by
  intro s r h
  rw [runs s, runs r, h.ahead.graph]
  refine .ok _ ⟨⟨rfl, h.ahead.memo, ?_⟩, h.depth⟩
  intro ty id looked
  rcases h.ahead.extra ty id looked with known | ⟨kind, measured, slot⟩
  · exact .inl known
  · exact .inr ⟨kind, measured, slots _ _ _ slot⟩

theorem togetherAllocate (n : Node) : Together (Abreast t o) (allocate n) (allocate n) :=
  togetherGraph (fun g => g.push n) (fun _ => rfl) (fun _ _ _ slot => slot)

theorem togetherPrimitive (kind : Primitive) :
    Together (Abreast t o) (primitive kind) (primitive kind) :=
  togetherGraph (fun g => g.addPrimitive kind) (fun _ => rfl) (fun _ _ _ => Session.slotShared)

theorem togetherFill (id : NodeId) (f : Record → Record) :
    Together (Abreast t o) (fill id f) (fill id f) := by
  apply togetherGraph (fun g => ((), (g.modifyRecord id f).getD g))
  · intro s
    unfold fill
    cases s.graph.modifyRecord id f <;> rfl
  · intro g kind place slot
    simp only [Graph.modifyRecord]
    split <;> exact slot

theorem togetherRegister (ty : TypeId) (id : NodeId) :
    Together (Abreast t o) (register ty id) (register ty id) := by
  intro s r h
  have inserted : ∀ (m : Session) (other : TypeId),
      ({ m with memo := m.memo.insert ty id } : Session).lookup other =
        if other = ty then some id else m.lookup other :=
    fun m other => Memo.findInsert m.memo ty other id
  refine .ok id ⟨⟨h.ahead.graph, ?_, ?_⟩, h.depth⟩ <;> intro other found looked <;>
    rw [inserted] at looked ⊢ <;> by_cases same : other = ty
  · rwa [if_pos same] at looked ⊢
  · rw [if_neg same] at looked ⊢
    exact h.ahead.memo other found looked
  · rw [if_pos same] at looked ⊢
    exact .inl looked
  · rw [if_neg same] at looked ⊢
    exact h.ahead.extra other found looked

theorem togetherRegisterNew {ty : TypeId} (other : ∀ kind, ¬ t.MeasuredAs o ty kind) (n : Node) :
    Together (Abreast t o) (registerNew ty n) (registerNew ty n) :=
  togetherNew (fun h => Session.aheadLookup h.ahead other) (togetherAllocate n) (togetherRegister ty)

theorem abreastAccord : Accord (Abreast t o) where
  level := abreastLevel
  depth h := h.depth
  node h id := by rw [h.ahead.graph]
  allocate n _ := togetherAllocate n
  primitive := togetherPrimitive
  register := togetherRegister
  fill := togetherFill

theorem togetherEnum (ty : TypeId) (d : DeclId) :
    Together (Abreast t o) (expandEnum t o ty d) (expandEnum t o ty d) := by
  have rest : ∀ declared, Together (Abreast t o)
      (do
        let name ← ask (t.enumName d)
        let size ← ask (t.sizeInBits ty)
        let id ← allocate (.enum ⟨name, size / 8, .ofDeclared declared⟩)
        register ty id)
      (do
        let name ← ask (t.enumName d)
        let size ← ask (t.sizeInBits ty)
        let id ← allocate (.enum ⟨name, size / 8, .ofDeclared declared⟩)
        register ty id) := by
    intro declared
    apply togetherBind (togetherAsk _)
    intro name
    apply togetherBind (togetherAsk _)
    intro size
    exact togetherBind (togetherAllocate _) (fun id => togetherRegister ty id)
  unfold expandEnum
  split
  · exact togetherBind (togetherAsk _) rest
  · exact togetherBind (togetherPure _) rest

theorem notMeasured {ty : TypeId} {e : TypeEntry} (found : t.entry? ty = some e)
    (other : ∀ builtin, e.type ≠ .builtin builtin) (kind : Primitive) :
    ¬ t.MeasuredAs o ty kind := by
  rintro ⟨e', builtin, found', same, _⟩
  rw [found] at found'
  cases Option.some.inj found'
  exact other builtin same

theorem expandBuiltinRuns (visit : TypeId → Step NodeId) (s : Session) {ty : TypeId}
    {builtin : Builtin} {kind : Primitive} (defined : t.isComplete ty = .ok true)
    (measured : builtin.primitive? o.model = some kind) :
    deeper (expandType t o visit ty (.builtin builtin)) s =
      .ok (s.graph.addPrimitive kind).1 (s.shareFor ty kind) := by
  unfold deeper expandType
  simp only [askOk defined, pure_bind, if_true, measured]
  rfl

theorem behindEnters (visit : TypeId → Step NodeId) {s r : Session} (h : Abreast t o s r)
    {ty : TypeId} {id : NodeId} (fresh : r.lookup ty = none) (looked : s.lookup ty = some id) :
    ∃ r', expandWith t o visit ty r = .ok id r' ∧ Abreast t o s r' := by
  rcases h.ahead.extra ty id looked with known | ⟨kind, ⟨e, builtin, found, same, measured⟩, slot⟩
  · rw [fresh] at known
    contradiction
  have defined : t.isComplete ty = .ok true :=
    Table.plainComplete found (by simp [Table.layoutNext, same]) (by simp [same]) (by simp [same])
      (by simp [same])
  have shared := Graph.addPrimitiveOld slot
  have runs := expandBuiltinRuns visit r defined measured
  refine ⟨r.shareFor ty kind, ?_, ⟨⟨?_, ?_, ?_⟩, h.depth⟩⟩
  · rw [expandWithFresh fresh found, same]
    rw [shared] at runs
    exact runs
  · simpa only [Session.shareFor, shared] using h.ahead.graph
  · intro other place known
    rw [Session.lookupShareFor, shared] at known
    split at known
    · rename_i equal
      rw [equal, looked, known]
    · exact h.ahead.memo other place known
  · intro other place known
    have kept : (r.shareFor ty kind).graph = r.graph := by simp only [Session.shareFor, shared]
    rw [Session.lookupShareFor, shared, kept]
    split
    · rename_i equal
      rw [equal, looked] at known
      exact .inl known
    · exact h.ahead.extra other place known

theorem togetherWith {visit : TypeId → Step NodeId}
    (visits : ∀ ty, Together (Abreast t o) (visit ty) (visit ty)) (ty : TypeId) :
    Together (Abreast t o) (expandWith t o visit ty) (expandWith t o visit ty) := by
  intro s r h
  cases behind : r.lookup ty with
  | some id =>
    rw [expandWithKnown behind, expandWithKnown (h.ahead.memo ty id behind)]
    exact .ok id h
  | none =>
    cases front : s.lookup ty with
    | some id =>
      obtain ⟨r', runs, related⟩ := behindEnters visit h behind front
      rw [expandWithKnown front, runs]
      exact .ok id related
    | none =>
      cases found : t.entry? ty with
      | none =>
        rw [expandWithMissing front found, expandWithMissing behind found]
        exact .error _ h
      | some e =>
        rw [expandWithFresh front found, expandWithFresh behind found]
        cases e.type.sugarTarget with
        | some inner => exact visits inner s r h
        | none =>
          have registers := fun other n (_ : n.kind ≠ .enum) =>
            togetherRegisterNew (o := o) (notMeasured found other) n
          exact togetherDeeper abreastLevel
            (togetherType visits abreastAccord rfl rfl (togetherEnum ty) registers) s r h

theorem togetherExpand (room : Nat) (ty : TypeId) :
    Together (Abreast t o) (expand t o room ty) (expand t o room ty) := by
  induction room generalizing ty with
  | zero => exact fun _ _ h => .error _ h
  | succ room ih => exact togetherWith ih ty

end Expansion
end ObjectLayout
