import ObjectLayout.Proofs.Expansion.Description
import ObjectLayout.Proofs.Expansion.Outcome
import ObjectLayout.Proofs.Expansion.Reach

/-! Where addresses are not followed, an expansion allocates no node for an address, however deep it goes
and whatever comes back to it. Only the one that was asked for can be given a node, and gets it last. -/
namespace ObjectLayout

def Node.isAddress : Node → Bool
  | .pointer _ | .reference _ => true
  | _ => false

namespace Expansion

variable {α β : Type} {t : Table} {o : Options} {visit : TypeId → Step NodeId} {s : Session}

structure Quiet (s last : Session) : Prop where
  depth : last.depth = s.depth
  size : s.graph.nodes.size ≤ last.graph.nodes.size
  older : ∀ id n, last.graph.node? id = some n → n.isAddress = true → s.graph.node? id = some n

theorem quietRefl (s : Session) : Quiet s s := ⟨rfl, Nat.le_refl _, fun _ _ found _ => found⟩

theorem quietTrans {a b c : Session} (first : Quiet a b) (second : Quiet b c) : Quiet a c :=
  ⟨second.depth.trans first.depth, Nat.le_trans first.size second.size,
    fun id n found address => first.older id n (second.older id n found address) address⟩

theorem quietMemo (s : Session) (m : Memo) : Quiet s { s with memo := m } :=
  ⟨rfl, Nat.le_refl _, fun _ _ found _ => found⟩

theorem quietPush {n : Node} (plain : n.isAddress = false) (s : Session) :
    Quiet s { s with graph := (s.graph.push n).2 } := by
  refine ⟨rfl, by simp [Graph.sizePush], fun id m found address => ?_⟩
  rw [Graph.nodePush] at found
  split at found
  · cases found
    rw [plain] at address
    contradiction
  · exact found

theorem quietShare (s : Session) (kind : Primitive) : Quiet s (s.share kind) := by
  refine ⟨rfl, Graph.sizeAddPrimitive s.graph kind, fun id m found address => ?_⟩
  rw [Session.share, Graph.nodeAddPrimitive] at found
  split at found
  · cases found
    contradiction
  · exact found

theorem quietRefill {id : NodeId} {old : Record} (found : s.graph.node? id = some (.record old))
    (r : Record) : Quiet s (s.refill id r) := by
  refine ⟨rfl, by simp [Session.refill, Graph.sizeSetRecord], fun other m at_other address => ?_⟩
  rw [Session.refill, Graph.nodeSetRecord (Graph.nodeInside found)] at at_other
  split at at_other
  · cases at_other
    contradiction
  · exact at_other

def Still (level : Nat) (x : Step α) : Prop :=
  ∀ s, level ≤ s.depth → Meets s x (fun _ last => Quiet s last) (fun _ _ => True)

variable {level : Nat}

theorem stillMore {less : Nat} {x : Step α} (h : Still less x) (more : less ≤ level) : Still level x :=
  fun s deep => h s (Nat.le_trans more deep)

theorem stillPure (a : α) : Still level (pure a) := fun s _ => quietRefl s

theorem stillRefuse (cause : Unsupported) : Still level (refuse cause : Step α) := fun _ _ => trivial

theorem stillAsk (answer : Except Fault α) : Still level (ask answer) := by
  intro s _
  cases answer with
  | ok a => exact quietRefl s
  | error f => trivial

theorem stillThen {x : Step α} {f : α → Step β} (first : Still level x)
    (next : ∀ a, Still level (f a)) : Still level (x >>= f) := by
  intro s deep
  refine meetsThen (first s deep) (fun a last quiet => ?_)
  exact meetsMono (next a last (quiet.depth ▸ deep)) (fun _ _ later => quietTrans quiet later)
    (fun _ _ _ => trivial)

theorem stillMapM {f : α → Step β} (each : ∀ a, Still level (f a)) (xs : List α) :
    Still level (xs.mapM f) := by
  induction xs with
  | nil =>
    rw [List.mapM_nil]
    exact stillPure []
  | cons a rest ih =>
    rw [List.mapM_cons]
    exact stillThen (each a) (fun b => stillThen ih (fun bs => stillPure (b :: bs)))

theorem stillDeeper {x : Step α} (inner : Still (level + 1) x) : Still level (deeper x) := by
  intro s deep
  refine meetsDeeper (meetsMono (inner _ (Nat.succ_le_succ deep)) ?_ (fun _ _ _ => trivial))
  intro _ last quiet
  exact ⟨by simp [quiet.depth], quiet.size, quiet.older⟩

theorem stillAllocate {n : Node} (plain : n.isAddress = false) : Still level (allocate n) :=
  fun s _ => quietPush plain s

theorem stillPrimitive (kind : Primitive) : Still level (primitive kind) := fun s _ => quietShare s kind

theorem stillRegister (ty : TypeId) (id : NodeId) : Still level (register ty id) :=
  fun s _ => quietMemo s _

theorem stillEnter {n : Node} (plain : n.isAddress = false) (ty : TypeId) :
    Still level (do let id ← allocate n; register ty id) :=
  stillThen (stillAllocate plain) (stillRegister ty)

theorem stillRegisterNew {n : Node} (plain : n.isAddress = false) (ty : TypeId) :
    Still level (registerNew ty n) := by
  intro s deep
  refine meetsRun (registerNewRuns ty n) ?_
  cases s.lookup ty with
  | some id => exact stillPure id s deep
  | none => exact stillEnter plain ty s deep

theorem stillFill (id : NodeId) (f : Record → Record) : Still level (fill id f) := by
  intro s _
  unfold Meets fill Graph.modifyRecord
  cases found : s.graph.node? id with
  | none => exact quietRefl s
  | some n =>
    cases n with
    | record r => exact quietRefill found (f r)
    | _ => exact quietRefl s

section
variable (below : ∀ ty, Still level (visit ty))
include below

theorem stillParam (a : TemplateArgument) : Still level (expandParam visit a) := by
  cases a with
  | type ty isConst => exact stillThen (below ty) (fun _ => stillPure _)
  | integral ty value => exact stillThen (below ty) (fun _ => stillPure _)
  | template name =>
    cases name with
    | template qualifiedName => exact stillPure _
    | indirect kind => exact stillRefuse _
  | unmodelled kind => exact stillRefuse _

theorem stillRecord (ty : TypeId) (d : DeclId) : Still level (expandRecord t visit ty d) := by
  have parents : ∀ b, Still level (expandParent visit b) :=
    fun b => stillThen (below b.ty) (fun _ => stillPure _)
  have members : ∀ f, Still level (expandMember visit f) :=
    fun f => stillThen (below f.ty) (fun _ => stillPure _)
  unfold expandRecord
  refine stillThen (stillAsk _) (fun info => stillThen (stillAsk _) (fun size =>
    stillThen (stillAsk _) (fun align => ?_)))
  refine stillThen (stillAllocate rfl) (fun id => stillThen (stillRegister ty id) (fun id => ?_))
  refine stillThen (stillAsk _) (fun args => stillThen (stillMapM (stillParam below) _) (fun params => ?_))
  refine stillThen (stillAsk _) (fun bases => stillThen (stillMapM parents _) (fun above => ?_))
  refine stillThen (stillAsk _) (fun fields => stillThen (stillMapM members _) (fun inside => ?_))
  exact stillThen (stillAsk _) (fun methods => stillThen (stillFill id _) (fun _ => stillPure id))

theorem stillWrapper (ty target : TypeId) {make : NodeId → Node}
    (plain : ∀ id, (make id).isAddress = false) :
    Still level (do let id ← visit target; registerNew ty (make id)) :=
  stillThen (below target) (fun id => stillRegisterNew (plain id) ty)

end

theorem stillEnum (ty : TypeId) (d : DeclId) : Still level (expandEnum t o ty d) := by
  have rest : ∀ declared, Still level (do
      let name ← ask (t.enumName d)
      let size ← ask (t.sizeInBits ty)
      let id ← allocate (.enum ⟨name, size / 8, .ofDeclared declared⟩)
      register ty id) :=
    fun declared => stillThen (stillAsk _) (fun name => stillThen (stillAsk _) (fun size =>
      stillEnter rfl ty))
  unfold expandEnum
  split
  · exact stillThen (stillAsk _) rest
  · exact stillThen (stillPure _) rest

theorem stillAddress (unchased : o.chasePointers = false) {followed : Step NodeId} :
    Still 2 (do if o.follows (← get).depth then followed else primitive .stubbedPointer) := by
  intro s deep
  have unfollowed : o.follows s.depth = false := by
    have apart : s.depth ≠ 1 := by omega
    simp [Options.follows, unchased, apart]
  refine meetsRun (getRuns _) ?_
  rw [unfollowed, if_neg Bool.false_ne_true]
  exact stillPrimitive .stubbedPointer s deep

theorem stillType (below : ∀ ty, Still level (visit ty)) (ty : TypeId) {type : TypeClass}
    (pointer : ∀ target, type = .pointer target → Still level (expandPointer o visit ty target))
    (reference : ∀ target, type = .reference target → Still level (expandReference o visit ty target)) :
    Still level (expandType t o visit ty type) := by
  unfold expandType
  refine stillThen (stillAsk _) (fun complete => ?_)
  split
  · cases type with
    | builtin kind =>
      cases measured : kind.primitive? o.model with
      | some p =>
        simp only [measured]
        exact stillThen (stillPrimitive p) (stillRegister ty)
      | none =>
        simp only [measured]
        exact stillRefuse _
    | record d => exact stillRecord below ty d
    | enum d => exact stillEnum ty d
    | pointer target => exact pointer target rfl
    | reference target => exact reference target rfl
    | array element length => exact stillWrapper below ty element (fun _ => rfl)
    | synonym form name target => exact stillWrapper below ty target (fun _ => rfl)
    | sugar form target => exact below target
    | dependentSpecialization => exact stillRefuse _
    | unmodelled category => exact stillRefuse _
  · exact stillThen (stillAsk _) (fun name => stillEnter rfl ty)

theorem withStill (unchased : o.chasePointers = false) (below : ∀ ty, Still 1 (visit ty)) (ty : TypeId) :
    Still 1 (expandWith t o visit ty) := by
  have deep : ∀ e, Still 1 (deeper (expandType t o visit ty e)) := fun e =>
    stillDeeper (stillType (fun other => stillMore (below other) (by decide)) ty
      (fun _ _ => stillAddress unchased) (fun _ _ => stillAddress unchased))
  intro s inside
  refine meetsRun (expandWithRuns ty) ?_
  cases s.lookup ty with
  | some id => exact stillPure id s inside
  | none =>
    refine stillThen (stillAsk (t.entry ty)) (fun e => ?_) s inside
    cases e.type.sugarTarget with
    | some inner => exact below inner
    | none => exact deep e.type

theorem expandStill (unchased : o.chasePointers = false) (room : Nat) (ty : TypeId) :
    Still 1 (Expansion.expand t o room ty) := by
  induction room generalizing ty with
  | zero => exact fun _ _ => trivial
  | succ room ih => exact withStill unchased ih ty

inductive Single (t : Table) (s : Session) (ty : TypeId) : NodeId → Session → Prop
  | quiet {id last} (quiet : Quiet s last) : Single t s ty id last
  | address {target mid n} (path : t.Desugars ty target) (address : t.IsAddress target)
      (fresh : s.lookup target = none) (quiet : Quiet s mid) :
      Single t s ty ⟨mid.graph.nodes.size⟩ (mid.enter target n)

theorem registerNewSingle {mid : Session} {ty target : TypeId} (path : t.Desugars ty target)
    (address : t.IsAddress target) (fresh : s.lookup target = none) (quiet : Quiet s mid) (n : Node) :
    Meets mid (registerNew target n) (Single t s ty) (fun _ _ => True) := by
  unfold Meets
  cases looked : mid.lookup target with
  | some id =>
    rw [registerNewKnown looked]
    exact .quiet quiet
  | none =>
    rw [registerNewFresh looked]
    exact .address path address fresh quiet

theorem addressSingle (below : ∀ ty, Still 1 (visit ty)) (top : s.depth = 1) {ty : TypeId}
    (fresh : s.lookup ty = none) {e : TypeEntry} (found : t.entry? ty = some e)
    (plain : e.type.sugarTarget = none) (address : e.type.pointee ≠ none) :
    Meets s (expandType t o visit ty e.type) (Single t s ty) (fun _ _ => True) := by
  have follows : o.follows s.depth = true := by simp [Options.follows, top]
  have own : t.Desugars ty ty := .plain found plain
  unfold expandType
  rw [askOk (addressComplete found address), pure_bind, if_pos rfl]
  cases same : e.type with
  | pointer target =>
    refine meetsRun (getRuns _) ?_
    rw [if_pos follows]
    refine meetsThen (below target s (Nat.le_of_eq top.symm)) (fun id mid quiet => ?_)
    exact registerNewSingle own ⟨e, found, address⟩ fresh quiet _
  | reference target =>
    refine meetsRun (getRuns _) ?_
    rw [if_pos follows]
    refine meetsThen (below target s (Nat.le_of_eq top.symm)) (fun id mid quiet => ?_)
    refine meetsRun (getRuns _) ?_
    cases got : mid.graph.node id with
    | error f => trivial
    | ok n =>
      rw [askOk rfl, pure_bind]
      split <;> exact registerNewSingle own ⟨e, found, address⟩ fresh quiet _
  | _ => simp [same, TypeClass.pointee] at address

theorem deeperSingle {ty : TypeId} {x : Step NodeId}
    (inner : Meets { s with depth := s.depth + 1 } x (Single t { s with depth := s.depth + 1 } ty)
      (fun _ _ => True)) : Meets s (deeper x) (Single t s ty) (fun _ _ => True) := by
  have up : ∀ {last}, Quiet { s with depth := s.depth + 1 } last →
      Quiet s { last with depth := last.depth - 1 } :=
    fun quiet => ⟨by simp [quiet.depth], quiet.size, quiet.older⟩
  refine meetsDeeper (meetsMono inner (fun id last single => ?_) (fun _ _ _ => trivial))
  cases single with
  | quiet quiet => exact .quiet (up quiet)
  | @address target mid n path address fresh quiet =>
    have before : s.lookup target = none := fresh
    have above : Quiet s { mid with depth := mid.depth - 1 } := up quiet
    exact .address path address before above

theorem expandSingle (unchased : o.chasePointers = false) (top : s.depth = 0) (room : Nat)
    (ty : TypeId) : Meets s (Expansion.expand t o room ty) (Single t s ty) (fun _ _ => True) := by
  induction room generalizing ty with
  | zero => trivial
  | succ room ih =>
    cases looked : s.lookup ty with
    | some id =>
      unfold Meets
      rw [Expansion.expand, expandWithKnown looked]
      exact .quiet (quietRefl s)
    | none =>
      cases found : t.entry? ty with
      | none =>
        unfold Meets
        rw [Expansion.expand, expandWithMissing looked found]
        trivial
      | some e =>
        refine meetsRun (expandWithFresh looked found) ?_
        cases step : e.type.sugarTarget with
        | some inner =>
          refine meetsMono (ih inner) (fun id last single => ?_) (fun _ _ _ => trivial)
          cases single with
          | quiet quiet => exact .quiet quiet
          | address path address fresh quiet => exact .address (.sugar found step path) address fresh quiet
        | none =>
          have below := expandStill (t := t) unchased room
          by_cases address : e.type.pointee = none
          · have still : Still 1 (expandType t o (Expansion.expand t o room) ty e.type) :=
              stillType below ty (fun target same => by simp [same, TypeClass.pointee] at address)
                (fun target same => by simp [same, TypeClass.pointee] at address)
            exact meetsMono (stillDeeper still s (Nat.zero_le _)) (fun _ _ quiet => .quiet quiet)
              (fun _ _ _ => trivial)
          · have first : Session.lookup { s with depth := s.depth + 1 } ty = none := looked
            exact deeperSingle (addressSingle below (by simp [top]) first found step address)

end Expansion
end ObjectLayout
