import Mathlib.Data.List.Forall2
import ObjectLayout.Proofs.Expansion.Coherence

/-! What node a type of a table is described by. A description fixes the node down to its last
field; of the types it mentions it says which nodes stand for them, as given by a relation. -/
namespace ObjectLayout

inductive Table.Desugars (t : Table) : TypeId → TypeId → Prop where
  | plain {ty e} (found : t.entry? ty = some e) (done : e.type.sugarTarget = none) :
      Desugars t ty ty
  | sugar {ty e inner last} (found : t.entry? ty = some e)
      (step : e.type.sugarTarget = some inner) (rest : Desugars t inner last) : Desugars t ty last

theorem Table.desugarsPlain {t : Table} {ty last : TypeId} {e : TypeEntry}
    (found : t.entry? ty = some e) (plain : e.type.sugarTarget = none) (path : t.Desugars ty last) :
    last = ty := by
  cases path with
  | plain other done => rfl
  | sugar other step rest =>
    rw [found] at other
    cases Option.some.inj other
    rw [plain] at step
    contradiction

theorem Table.desugarsSugar {t : Table} {ty inner last : TypeId} {e : TypeEntry}
    (found : t.entry? ty = some e) (step : e.type.sugarTarget = some inner)
    (path : t.Desugars ty last) : t.Desugars inner last := by
  cases path with
  | plain other done =>
    rw [found] at other
    cases Option.some.inj other
    rw [step] at done
    contradiction
  | sugar other next rest =>
    rw [found] at other
    cases Option.some.inj other
    exact Option.some.inj (next.symm.trans step) ▸ rest

theorem Table.desugarsUnique {t : Table} {ty a b : TypeId} (first : t.Desugars ty a)
    (second : t.Desugars ty b) : a = b := by
  induction first with
  | plain found done => exact (desugarsPlain found done second).symm
  | sugar found step rest ih => exact ih (desugarsSugar found step second)

theorem Table.desugarsComplete {t : Table} (sound : t.Sound) {ty last : TypeId}
    (path : t.Desugars ty last) : t.isComplete ty = t.isComplete last := by
  induction path with
  | plain found done => rfl
  | sugar found step rest ih => rw [sugarComplete sound found step, ih]

def TypeClass.pointee : TypeClass → Option TypeId
  | .pointer target | .reference target => some target
  | _ => none

theorem pointeeWraps {c : TypeClass} {target : TypeId} (h : c.pointee = some target) :
    c.wrapped = some target := by
  cases c <;> first | exact h | contradiction

theorem addressPlain {c : TypeClass} (address : c.pointee ≠ none) : c.sugarTarget = none := by
  cases c <;> first | rfl | exact absurd rfl address

theorem sugarWraps {c : TypeClass} {target : TypeId} (h : c.sugarTarget = some target) :
    c.wrapped = some target := by
  cases c <;> first | exact h | contradiction

theorem addressComplete {t : Table} {ty : TypeId} {e : TypeEntry} (found : t.entry? ty = some e)
    (address : e.type.pointee ≠ none) : t.isComplete ty = .ok true := by
  cases h : e.type with
  | pointer | reference =>
    exact Table.plainComplete found (by simp [Table.layoutNext, h]) (by simp [h]) (by simp [h])
      (by simp [h])
  | builtin | record | enum | array | synonym | sugar | dependentSpecialization | unmodelled =>
    simp [TypeClass.pointee, h] at address

namespace EnumeratorMap

def firstName (xs : List Enumerator) (value : Int64) : Option String :=
  (xs.find? (fun e => e.value = value)).map Enumerator.name

theorem memPlaceNew {value : Int64} {name : String} {xs : List (Int64 × String)}
    (sorted : xs.Pairwise (fun a b => a.1 < b.1)) {e : Int64 × String} :
    e ∈ place (fun old => old) value name xs ↔
      e ∈ xs ∨ e = (value, name) ∧ value ∉ xs.map Prod.fst := by
  induction xs with
  | nil => simp [place]
  | cons x rest ih =>
    obtain ⟨first, others⟩ := List.pairwise_cons.mp sorted
    simp only [place]
    split
    · rename_i below
      have absent : value ∉ (x :: rest).map Prod.fst := by
        intro member
        obtain ⟨y, inside, same⟩ := List.mem_map.mp member
        have above : value < y.1 := by
          rcases List.mem_cons.mp inside with head | tail
          · rwa [head]
          · exact Int64.lt_trans below (first y tail)
        rw [same] at above
        exact Int64.lt_irrefl above
      simp only [List.mem_cons (a := e), absent, not_false_eq_true, and_true]
      exact or_comm
    · split
      · rename_i same
        simp [same]
      · rename_i other
        simp only [List.mem_cons (a := e), ih others, List.map_cons, List.mem_cons, other, false_or]
        exact or_assoc.symm

theorem memInsertNew {m : EnumeratorMap} {value : Int64} {name : String} {e : Int64 × String} :
    e ∈ (m.insertNew value name).entries ↔
      e ∈ m.entries ∨ e = (value, name) ∧ value ∉ m.entries.map Prod.fst :=
  memPlaceNew m.ascending

theorem memDeclaredFrom {xs : List Enumerator} {m : EnumeratorMap} {value : Int64} {name : String} :
    (value, name) ∈ (xs.foldl (fun m e => m.insertNew e.value e.name) m).entries ↔
      (value, name) ∈ m.entries ∨
        value ∉ m.entries.map Prod.fst ∧ firstName xs value = some name := by
  induction xs generalizing m with
  | nil => simp [firstName]
  | cons x rest ih =>
    have keys : value ∈ (m.insertNew x.value x.name).entries.map Prod.fst ↔
        value = x.value ∨ value ∈ m.entries.map Prod.fst := memPlace
    rw [List.foldl_cons, ih, memInsertNew, keys]
    by_cases same : value = x.value
    · subst same
      simp [firstName, and_comm, eq_comm]
    · have apart : ¬ x.value = value := fun equal => same equal.symm
      simp [firstName, same, apart]

theorem memOfDeclared {xs : List Enumerator} {value : Int64} {name : String} :
    (value, name) ∈ (ofDeclared xs).entries ↔ firstName xs value = some name := by
  rw [ofDeclared, memDeclaredFrom]
  simp [empty]

end EnumeratorMap

inductive ParamDescribes (link : TypeId → NodeId → Prop) : TemplateArgument → TemplateParam → Prop
  | type {ty id} (isConst : Bool) (child : link ty id) :
      ParamDescribes link (.type ty isConst) (.type id (.ofConst isConst))
  | integral {ty id} (value : String) (child : link ty id) :
      ParamDescribes link (.integral ty value) (.value id value)
  | template (name : String) : ParamDescribes link (.template (.template name)) (.template name)

structure ParentDescribes (link : TypeId → NodeId → Prop) (b : Base) (p : Parent) : Prop where
  child : link b.ty p.ty
  offset : p.bitOffset = b.bitOffset

structure MemberDescribes (link : TypeId → NodeId → Prop) (f : Field) (m : Member) : Prop where
  name : m.name = f.name
  child : link f.ty m.ty
  offset : m.bitOffset = f.bitOffset
  width : m.bitSize = f.bitWidth.getD 0

inductive ClassDescribes (t : Table) (o : Options) (link : TypeId → NodeId → Prop) (ty : TypeId) :
    TypeClass → Node → Prop
  | builtin {builtin kind} (measured : builtin.primitive? o.model = some kind) :
      ClassDescribes t o link ty (.builtin builtin) (.primitive kind)
  | record {d info x size align params parents members}
      (decl : t.decl? d = some (.record info (some x)))
      (sized : t.sizeInBits ty = .ok size) (aligned : t.alignInBits ty = .ok align)
      (args : List.Forall₂ (ParamDescribes link) (x.templateArgs.getD []) params)
      (bases : List.Forall₂ (ParentDescribes link) x.bases parents)
      (fields : List.Forall₂ (MemberDescribes link) x.fields members) :
      ClassDescribes t o link ty (.record d)
        (.record ⟨info.kind, info.name, info.qualifiedName, size / 8, align / 8, info.isDynamic,
          params, parents, Expansion.layoutOrder members,
          x.methods.map (fun m => ⟨m.name, m.isVirtual⟩)⟩)
  | enum {d name x size} {m : EnumeratorMap} (decl : t.decl? d = some (.enum name (some x)))
      (sized : t.sizeInBits ty = .ok size)
      (names : ∀ value label, (value, label) ∈ m.entries ↔ o.readEnumerators = true ∧
        EnumeratorMap.firstName x.enumerators value = some label) :
      ClassDescribes t o link ty (.enum d) (.enum ⟨name, size / 8, m⟩)
  | array {element id} (length : UInt64) (child : link element id) :
      ClassDescribes t o link ty (.array element length) (.array id length)
  | synonym {target id} (form : AliasForm) (name : String) (child : link target id) :
      ClassDescribes t o link ty (.synonym form name target) (.typedef name id)
  | pointer {pointee id} (child : link pointee id) :
      ClassDescribes t o link ty (.pointer pointee) (.pointer id)
  | reference {pointee id} (complete : t.isComplete pointee = .ok true) (child : link pointee id) :
      ClassDescribes t o link ty (.reference pointee) (.reference id)
  | address {pointee id} (incomplete : t.isComplete pointee = .ok false) (child : link pointee id) :
      ClassDescribes t o link ty (.reference pointee) (.pointer id)

inductive Describes (t : Table) (o : Options) (link : TypeId → NodeId → Prop) (ty : TypeId) :
    Node → Prop
  | incomplete {name} (undefined : t.isComplete ty = .ok false)
      (named : t.displayName ty = .ok name) :
      Describes t o link ty (.incomplete s!"incomplete type `{name}`")
  | complete {e n} (found : t.entry? ty = some e) (defined : t.isComplete ty = .ok true)
      (built : ClassDescribes t o link ty e.type n) : Describes t o link ty n

section
variable {link other : TypeId → NodeId → Prop} (kept : ∀ ty id, link ty id → other ty id)
include kept

theorem paramDescribesKept {a p} (h : ParamDescribes link a p) : ParamDescribes other a p := by
  cases h with
  | type isConst child => exact .type isConst (kept _ _ child)
  | integral value child => exact .integral value (kept _ _ child)
  | template name => exact .template name

theorem classDescribesKept {t o ty c n} (h : ClassDescribes t o link ty c n) :
    ClassDescribes t o other ty c n := by
  cases h with
  | builtin measured => exact .builtin measured
  | record decl sized aligned args bases fields =>
    exact .record decl sized aligned
      (args.imp (fun _ _ h => paramDescribesKept kept h))
      (bases.imp (fun _ _ h => ⟨kept _ _ h.child, h.offset⟩))
      (fields.imp (fun _ _ h => ⟨h.name, kept _ _ h.child, h.offset, h.width⟩))
  | enum decl sized names => exact .enum decl sized names
  | array length child => exact .array length (kept _ _ child)
  | synonym form name child => exact .synonym form name (kept _ _ child)
  | pointer child => exact .pointer (kept _ _ child)
  | reference complete child => exact .reference complete (kept _ _ child)
  | address incomplete child => exact .address incomplete (kept _ _ child)

theorem describesKept {t o ty n} (h : Describes t o link ty n) : Describes t o other ty n := by
  cases h with
  | incomplete undefined named => exact .incomplete undefined named
  | complete found defined built => exact .complete found defined (classDescribesKept kept built)

end

theorem pairedWith {α β : Type} {R : α → β → Prop} {xs : List α} {ys : List β}
    (h : List.Forall₂ R xs ys) {y : β} (member : y ∈ ys) : ∃ x ∈ xs, R x y := by
  induction h with
  | nil => simp at member
  | cons head tail ih =>
    rcases List.mem_cons.mp member with same | inside
    · subst same
      exact ⟨_, List.mem_cons_self, head⟩
    · obtain ⟨x, before, related⟩ := ih inside
      exact ⟨x, List.mem_cons_of_mem _ before, related⟩

theorem classChildren {t o link ty c n} (h : ClassDescribes t o link ty c n) {id : NodeId}
    (member : id ∈ n.children) : ∃ child, link child id := by
  cases h with
  | builtin | enum => simp [Node.children] at member
  | array _ child | synonym _ _ child | pointer child | reference _ child | address _ child =>
    simp only [Node.children, List.mem_singleton] at member
    subst member
    exact ⟨_, child⟩
  | record decl sized aligned args bases fields =>
    simp only [Node.children, List.mem_append, List.mem_filterMap, List.mem_map] at member
    rcases member with (⟨p, inside, same⟩ | ⟨p, inside, same⟩) | ⟨m, inside, same⟩
    · obtain ⟨a, _, described⟩ := pairedWith args inside
      cases described with
      | type isConst child | integral value child =>
        cases same
        exact ⟨_, child⟩
      | template name => simp [TemplateParam.type?] at same
    · obtain ⟨b, _, described⟩ := pairedWith bases inside
      exact ⟨b.ty, same ▸ described.child⟩
    · rw [Expansion.layoutOrder, List.mem_mergeSort] at inside
      obtain ⟨f, _, described⟩ := pairedWith fields inside
      exact ⟨f.ty, same ▸ described.child⟩

/-- The node that stands for a type: the one that the type was given when it is met without its
sugar; or, where an address is not followed, the stub that all such addresses share. -/
inductive Linked (t : Table) (followed : Bool) (s : Session) (ty : TypeId) (id : NodeId) : Prop
  | known {last} (path : t.Desugars ty last) (looked : s.lookup last = some id)
  | stub {last e} (path : t.Desugars ty last) (found : t.entry? last = some e)
      (address : e.type.pointee ≠ none) (unfollowed : followed = false)
      (node : s.graph.node? id = some (.primitive .stubbedPointer))

theorem linkedSugar {t followed s ty e inner id} (found : t.entry? ty = some e)
    (step : e.type.sugarTarget = some inner) (h : Linked t followed s inner id) :
    Linked t followed s ty id := by
  cases h with
  | known path looked => exact .known (.sugar found step path) looked
  | stub path at_last address unfollowed node =>
    exact .stub (.sugar found step path) at_last address unfollowed node

theorem linkedKept {t followed} {s s' : Session} (memo : ∀ ty id, s.lookup ty = some id →
      s'.lookup ty = some id)
    (stubs : ∀ id, s.graph.node? id = some (.primitive .stubbedPointer) →
      s'.graph.node? id = some (.primitive .stubbedPointer))
    {ty id} (h : Linked t followed s ty id) : Linked t followed s' ty id := by
  cases h with
  | known path looked => exact .known path (memo _ id looked)
  | stub path found address unfollowed node =>
    exact .stub path found address unfollowed (stubs id node)

theorem linkedGrown {t followed} {s s' : Session} (grown : Session.Grown s s') {ty id}
    (h : Linked t followed s ty id) : Linked t followed s' ty id :=
  linkedKept grown.memo
    (fun id node => (grown.graph.node id (Graph.nodeInside node)).trans node) h

theorem linkedComplete {t o followed} {s : Session} (sound : t.Sound)
    (coherent : Session.Coherent t o s) {ty id n} (h : Linked t followed s ty id)
    (node : s.graph.node? id = some n) : t.isComplete ty = .ok (!n.isIncomplete) := by
  cases h with
  | known path looked =>
    obtain ⟨m, same, complete⟩ := (coherent.entered _ id looked).node
    rw [node] at same
    cases Option.some.inj same
    rw [Table.desugarsComplete sound path, complete]
  | stub path found address unfollowed stub =>
    rw [node] at stub
    cases Option.some.inj stub
    rw [Table.desugarsComplete sound path, addressComplete found address]
    rfl

end ObjectLayout
