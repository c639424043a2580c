import ObjectLayout.Proofs.Expansion.Description
import ObjectLayout.Proofs.Expansion.Outcome

/-! What an expansion does, for every table that is in order. It ends with a node or stops at a
cause, never at a fault. Either way the session has only grown; where it ends with a node, every
type that was given one on the way is described by it, and no record is left half-filled.

The recursion is bounded by the types that are records and have no node yet, and between two of
them by the handle, which falls along the wrappers. -/
namespace ObjectLayout.Expansion

def isRecord (t : Table) (ty : TypeId) : Bool :=
  match t.entry? ty with
  | some ⟨.record _, _⟩ => true
  | _ => false

def pending (t : Table) (s : Session) : Finset Nat :=
  (Finset.range t.types.size).filter (fun i => isRecord t ⟨i⟩ = true ∧ s.lookup ⟨i⟩ = none)

def cost (t : Table) (s : Session) (ty : TypeId) : Nat :=
  (pending t s).card * (t.types.size + 1) + ty.raw

theorem pendingGrown {t : Table} {s s' : Session} (grown : Session.Grown s s') :
    pending t s' ⊆ pending t s := by
  intro i member
  simp only [pending, Finset.mem_filter] at member ⊢
  refine ⟨member.1, member.2.1, ?_⟩
  cases looked : s.lookup ⟨i⟩ with
  | none => rfl
  | some id =>
    have kept := grown.memo _ id looked
    rw [kept] at member
    exact absurd member.2.2 (by simp)

theorem costBelowRecord {t : Table} {s s' : Session} (grown : Session.Grown s s') {ty : TypeId}
    {e : TypeEntry} {d : DeclId} (found : t.entry? ty = some e) (same : e.type = .record d)
    (fresh : s.lookup ty = none) {id : NodeId} (entered : s'.lookup ty = some id) {part : TypeId}
    (inside : part.raw < t.types.size) : cost t s' part < cost t s ty := by
  have record : isRecord t ty = true := by
    obtain ⟨type, spelling⟩ := e
    simp only at same
    simp [isRecord, found, same]
  have before : ty.raw ∈ pending t s :=
    Finset.mem_filter.mpr ⟨Finset.mem_range.mpr (Table.entryInRange found), record, fresh⟩
  have after : ty.raw ∉ pending t s' := by
    intro member
    have absent := (Finset.mem_filter.mp member).2.2
    change s'.lookup ty = none at absent
    rw [entered] at absent
    contradiction
  have fewer : (pending t s').card < (pending t s).card :=
    Finset.card_lt_card ⟨pendingGrown grown, fun all => after (all before)⟩
  have step : (pending t s').card * (t.types.size + 1) + (t.types.size + 1) ≤
      (pending t s).card * (t.types.size + 1) := by
    rw [← Nat.succ_mul]
    exact Nat.mul_le_mul_right _ fewer
  simp only [cost]
  omega

theorem costFuel {t : Table} (s : Session) {ty : TypeId} (inside : ty.raw < t.types.size) :
    cost t s ty < fuel t := by
  have bound : (pending t s).card ≤ t.types.size := by
    have all := Finset.card_filter_le (Finset.range t.types.size)
      (fun i => isRecord t ⟨i⟩ = true ∧ s.lookup ⟨i⟩ = none)
    rwa [Finset.card_range] at all
  have most := Nat.mul_le_mul_right (t.types.size + 1) bound
  have room : t.types.size * (t.types.size + 1) + 2 * (t.types.size + 1) = fuel t := by
    rw [fuel, ← Nat.add_mul, Nat.mul_comm]
  simp only [cost]
  omega

/-- A session that is fit to be expanded in. What is `precise` about it can only be had over a
graph whose nodes all come from the session. -/
structure Ready (t : Table) (o : Options) (precise : Prop) (s : Session) : Prop where
  resolved : s.Resolved t
  coherent : precise → s.Coherent t o

def Described (t : Table) (o : Options) (first s : Session) : Prop :=
  ∀ ty id, s.lookup ty = some id → first.lookup ty = some id ∨
    ∃ n, s.graph.node? id = some n ∧ Describes t o (Linked t o.chasePointers s) ty n

structure Progress (t : Table) (o : Options) (precise : Prop) (s last : Session) : Prop where
  path : Advance t o s last
  depth : last.depth = s.depth
  described : precise → Described t o s last

structure Stopped (t : Table) (o : Options) (s : Session) (e : Stop) (last : Session) : Prop where
  cause : ∃ cause, e = .unsupported cause
  path : Advance t o s last
  depth : last.depth = s.depth

structure Child (t : Table) (precise : Prop) (followed : Bool) (s : Session) (ty : TypeId)
    (id : NodeId) : Prop where
  inside : id.raw < s.graph.nodes.size
  linked : precise → Linked t followed s ty id

structure Answered (t : Table) (o : Options) (precise : Prop) (followed : Bool) (s : Session)
    (ty : TypeId) (id : NodeId) (last : Session) : Prop where
  progress : Progress t o precise s last
  child : Child t precise followed last ty id

variable {t : Table} {o : Options} {precise : Prop}

theorem readyAfter {s s' : Session} (ready : Ready t o precise s) (path : Advance t o s s') :
    Ready t o precise s' :=
  ⟨Session.changesResolved path ready.resolved,
    fun sure => Session.changesCoherent path (ready.coherent sure)⟩

theorem describedGrown {first s s' : Session} (grown : Session.Grown s s')
    (h : Described t o first s) {ty id} (looked : s.lookup ty = some id) :
    first.lookup ty = some id ∨
      ∃ n, s'.graph.node? id = some n ∧ Describes t o (Linked t o.chasePointers s') ty n := by
  rcases h ty id looked with old | ⟨n, node, described⟩
  · exact .inl old
  · refine .inr ⟨n, ?_, describesKept (fun _ _ link => linkedGrown grown link) described⟩
    rw [grown.graph.node id (Graph.nodeInside node), node]

theorem describedTrans {a b c : Session} (first : Described t o a b) (grown : Session.Grown b c)
    (second : Described t o b c) : Described t o a c := by
  intro ty id looked
  rcases second ty id looked with old | new
  · exact describedGrown grown first old
  · exact .inr new

theorem progressRefl (s : Session) : Progress t o precise s s :=
  ⟨.refl, rfl, fun _ _ _ looked => .inl looked⟩

theorem progressTrans {a b c : Session} (first : Progress t o precise a b)
    (second : Progress t o precise b c) : Progress t o precise a c :=
  ⟨advanceTrans first.path second.path, second.depth.trans first.depth, fun sure =>
    describedTrans (first.described sure) (Session.advanceGrown second.path) (second.described sure)⟩

theorem stoppedAfter {s s' last : Session} {e : Stop} (path : Advance t o s s')
    (depth : s'.depth = s.depth) (h : Stopped t o s' e last) : Stopped t o s e last :=
  ⟨h.cause, advanceTrans path h.path, h.depth.trans depth⟩

theorem childGrown {followed} {s s' : Session} (grown : Session.Grown s s') {ty id}
    (h : Child t precise followed s ty id) : Child t precise followed s' ty id :=
  ⟨Nat.lt_of_lt_of_le h.inside grown.size, fun sure => linkedGrown grown (h.linked sure)⟩

end ObjectLayout.Expansion
