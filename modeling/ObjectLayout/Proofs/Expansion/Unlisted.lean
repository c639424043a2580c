import ObjectLayout.Proofs.Graph.Unlisted
import ObjectLayout.Proofs.Expansion.Together

/-! An expansion that reads what the values of an enum are called, next to one that does not. They go
together all the way: the names are read for the node of the enum only, and nothing looks there
again. -/
namespace ObjectLayout

def Session.unlisted (s : Session) : Session := { s with graph := s.graph.unlisted }

theorem Session.unlistedLookup (s : Session) (ty : TypeId) : s.unlisted.lookup ty = s.lookup ty := rfl

theorem Node.incompleteUnlisted (n : Node) : n.unlisted.isIncomplete = n.isIncomplete := by
  cases n <;> rfl

theorem Table.enumeratorsDeclared {t : Table} {d : DeclId} {x : Declaration} (found : t.decl d = .ok x) :
    ∃ declared, t.enumerators d = .ok declared := by
  unfold enumerators enumDef
  rw [found]
  cases x with
  | record info definition => exact ⟨[], rfl⟩
  | enum name definition => cases definition <;> exact ⟨_, rfl⟩

namespace Expansion

def Unlists (s r : Session) : Prop := r = s.unlisted

theorem unlistsAllocate (n : Node) : Together Unlists (allocate n) (allocate n.unlisted) := by
  rintro s _ rfl
  have pushed := s.graph.unlistedPush n
  simp only [allocate, Session.unlisted, pushed]
  exact .ok _ rfl

theorem unlistsPrimitive (kind : Primitive) :
    Together Unlists (primitive kind) (primitive kind) := by
  rintro s _ rfl
  have shared := s.graph.unlistedAddPrimitive kind
  simp only [primitive, Session.unlisted, shared]
  exact .ok _ rfl

theorem unlistsFill (id : NodeId) (f : Record → Record) :
    Together Unlists (fill id f) (fill id f) := by
  rintro s _ rfl
  have filled := s.graph.unlistedModify id f
  simp only [fill, Session.unlisted, filled]
  cases s.graph.modifyRecord id f with
  | none => exact .ok _ rfl
  | some g => exact .ok _ rfl

theorem unlistsRegister (ty : TypeId) (id : NodeId) :
    Together Unlists (register ty id) (register ty id) := by
  rintro s _ rfl
  exact .ok id rfl

theorem unlistsAccord : Accord Unlists where
  level := by
    rintro s _ move rfl
    rfl
  depth := by
    rintro s _ rfl
    rfl
  node := by
    rintro s _ rfl id
    have same := s.graph.unlistedNode id
    simp only [Session.unlisted, same]
    cases s.graph.node id with
    | error f => rfl
    | ok n => exact congrArg Except.ok n.incompleteUnlisted.symm
  allocate n other := by
    have allocated := unlistsAllocate n
    rwa [Node.unlistedOther other] at allocated
  primitive := unlistsPrimitive
  register := unlistsRegister
  fill := unlistsFill

theorem unlistsRegisterNew (ty : TypeId) {n : Node} (other : n.kind ≠ .enum) :
    Together Unlists (registerNew ty n) (registerNew ty n) := by
  refine togetherNew ?_ (unlistsAccord.allocate n other) (unlistsRegister ty)
  rintro s _ rfl
  rfl

variable {t : Table} {o : Options}

/- One expansion asks one question more, and it is at fault where the next question of the other is. -/
theorem unlistsEnum (ty : TypeId) (d : DeclId) :
    Together Unlists (expandEnum t { o with readEnumerators := true } ty d)
      (expandEnum t { o with readEnumerators := false } ty d) := by
  unfold expandEnum
  cases found : t.decl d with
  | error f =>
    simp only [Table.enumerators, Table.enumDef, Table.enumName, found]
    exact fun _ _ h => .error _ h
  | ok x =>
    obtain ⟨declared, read⟩ := Table.enumeratorsDeclared found
    simp only [if_true, askOk read, pure_bind, Bool.false_eq_true, if_false]
    apply togetherBind (togetherAsk _)
    intro name
    apply togetherBind (togetherAsk _)
    intro size
    exact togetherBind (unlistsAllocate (.enum ⟨name, size / 8, .ofDeclared declared⟩))
      (fun id => unlistsRegister ty id)

theorem unlistsWith {visit more : TypeId → Step NodeId}
    (visits : ∀ ty, Together Unlists (visit ty) (more ty)) (ty : TypeId) :
    Together Unlists (expandWith t { o with readEnumerators := true } visit ty)
      (expandWith t { o with readEnumerators := false } more ty) := by
  rintro s _ rfl
  rw [expandWithRuns, expandWithRuns, Session.unlistedLookup]
  cases s.lookup ty with
  | some id => exact togetherPure id s _ rfl
  | none =>
    refine togetherBind (togetherAsk _) (fun e => ?_) s _ rfl
    cases e.type.sugarTarget with
    | some inner => exact visits inner
    | none =>
      exact togetherDeeper unlistsAccord.level (togetherType visits unlistsAccord rfl rfl
        (unlistsEnum ty) (fun _ _ other => unlistsRegisterNew ty other))

theorem unlistsExpand (room : Nat) (ty : TypeId) :
    Together Unlists (expand t { o with readEnumerators := true } room ty)
      (expand t { o with readEnumerators := false } room ty) := by
  induction room generalizing ty with
  | zero => exact fun _ _ h => .error _ h
  | succ room ih => exact unlistsWith ih ty

end Expansion
end ObjectLayout
