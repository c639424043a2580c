import Mathlib.Data.List.Nodup
import Mathlib.Data.List.Perm.Subperm
import Mathlib.Logic.Relation
import ObjectLayout.Graph.Name
import ObjectLayout.Proofs.Graph.Closed

/-! Names of the nodes of a closed graph. A name is made of the names of other nodes; it comes to its
end if and only if every way down through these does, and it never needs a node that there is not. -/
namespace ObjectLayout

open Relation

inductive Node.NamePart (id : NodeId) : Node → Prop
  | argument {c : Container} {qualifiers} (member : .type id qualifiers ∈ c.params) :
      NamePart id (.container c)
  | element (length : UInt64) : NamePart id (.array id length)
  | pointee : NamePart id (.pointer id)
  | referent : NamePart id (.reference id)
  | target (size align : UInt64) : NamePart id (.allocator id size align)

theorem Node.partMentioned {n : Node} {id : NodeId} (part : n.NamePart id) : n.Mentions id := by
  cases part with
  | argument member => exact .content member rfl
  | element | pointee | referent | target => constructor

section Spelling

variable {name other : NodeId → Except Fault String} {parts : NodeId → Prop}

def Composed (name : NodeId → Except Fault String) (parts : NodeId → Prop)
    (answer : Except Fault String) : Prop :=
  (∃ s, answer = .ok s ∧ ∀ id, parts id → ∃ t, name id = .ok t) ∨
    ∃ id e, parts id ∧ name id = .error e ∧ answer = .error e

theorem composedPlain (none : ∀ id, ¬ parts id) (s : String) : Composed name parts (.ok s) :=
  .inl ⟨s, rfl, fun id part => absurd part (none id)⟩

theorem composedOne {id : NodeId} (part : parts id) (only : ∀ other, parts other → other = id)
    (make : String → String) :
    Composed name parts (do let s ← name id; .ok (make s)) := by
  cases named : name id with
  | ok t =>
    refine .inl ⟨make t, rfl, fun other part => ⟨t, ?_⟩⟩
    rw [only other part, named]
  | error e => exact .inr ⟨id, e, part, named, rfl⟩

theorem composedParam (name : NodeId → Except Fault String) (p : TemplateParam) :
    Composed name (fun id => ∃ q, p = .type id q) (p.spelled name) := by
  cases p with
  | type id q =>
    refine composedOne ⟨q, rfl⟩ ?_ (fun s => if q.isConst then "const " ++ s else s)
    rintro other ⟨_, same⟩
    cases same
    rfl
  | value | template => exact composedPlain (by simp) _

theorem composedParams (name : NodeId → Except Fault String) (ps : List TemplateParam) :
    (∃ texts, ps.mapM (TemplateParam.spelled name) = .ok texts ∧
        ∀ id q, .type id q ∈ ps → ∃ t, name id = .ok t) ∨
      ∃ id q e, .type id q ∈ ps ∧ name id = .error e ∧
        ps.mapM (TemplateParam.spelled name) = .error e := by
  induction ps with
  | nil => exact .inl ⟨[], rfl, nofun⟩
  | cons p ps ih =>
    rw [List.mapM_cons]
    rcases composedParam name p with ⟨s, spelled, each⟩ | ⟨id, e, ⟨q, rfl⟩, failed, spelled⟩
    · rcases ih with ⟨texts, mapped, others⟩ | ⟨id, q, e, member, failed, mapped⟩
      · refine .inl ⟨s :: texts, by rw [spelled, mapped]; rfl, fun id q member => ?_⟩
        rcases List.mem_cons.mp member with same | later
        · exact each id ⟨q, same.symm⟩
        · exact others id q later
      · exact .inr ⟨id, q, e, List.mem_cons_of_mem p member, failed, by rw [spelled, mapped]; rfl⟩
    · exact .inr ⟨id, q, e, List.mem_cons_self, failed, by rw [spelled]; rfl⟩

theorem composedNode (name : NodeId → Except Fault String) (n : Node) :
    Composed name (fun id => n.NamePart id) (n.spelled name) := by
  cases n with
  | primitive | record | enum | typedef | incomplete | dummy => exact composedPlain nofun _
  | array id length =>
    exact composedOne (.element length) (by rintro _ ⟨⟩; rfl) _
  | pointer id => exact composedOne .pointee (by rintro _ ⟨⟩; rfl) _
  | reference id => exact composedOne .referent (by rintro _ ⟨⟩; rfl) _
  | allocator id size align => exact composedOne (.target size align) (by rintro _ ⟨⟩; rfl) _
  | container c =>
    simp only [Node.spelled]
    split
    · rename_i empty
      refine composedPlain ?_ _
      rintro id ⟨member⟩
      rw [List.isEmpty_iff.mp empty] at member
      contradiction
    · rcases composedParams name c.params with
        ⟨texts, mapped, each⟩ | ⟨id, q, e, member, failed, mapped⟩
      · refine .inl ⟨_, by rw [mapped]; rfl, ?_⟩
        rintro id ⟨member⟩
        exact each id _ member
      · exact .inr ⟨id, e, .argument member, failed, by rw [mapped]; rfl⟩

theorem spelledSame {n : Node} (same : ∀ id, n.NamePart id → name id = other id) :
    n.spelled name = n.spelled other := by
  cases n with
  | primitive | record | enum | typedef | incomplete | dummy => rfl
  | array id length => simp only [Node.spelled, same id (.element length)]
  | pointer id => simp only [Node.spelled, same id .pointee]
  | reference id => simp only [Node.spelled, same id .referent]
  | allocator id size align => simp only [Node.spelled, same id (.target size align)]
  | container c =>
    have params : ∀ ps : List TemplateParam, (∀ p ∈ ps, p ∈ c.params) →
        ps.mapM (TemplateParam.spelled name) = ps.mapM (TemplateParam.spelled other) := by
      intro ps
      induction ps with
      | nil => exact fun _ => rfl
      | cons p ps ih =>
        intro held
        obtain ⟨first, others⟩ := List.forall_mem_cons.mp held
        rw [List.mapM_cons, List.mapM_cons, ih others]
        cases p with
        | type id q => simp only [TemplateParam.spelled, same id (.argument first)]
        | value | template => rfl
    simp only [Node.spelled, params c.params (fun _ member => member)]

end Spelling

namespace Graph

variable {g : Graph}

def NamedBy (g : Graph) (part id : NodeId) : Prop := ∃ n, g.node? id = some n ∧ n.NamePart part

def NameEnds (g : Graph) (id : NodeId) : Prop := Acc g.NamedBy id

theorem nameAt {id : NodeId} {n : Node} (found : g.node? id = some n) (fuel : Nat) :
    g.nameWithin (fuel + 1) id = n.spelled (g.nameWithin fuel) := by
  simp only [nameWithin, node, found]
  rfl

theorem partInside (closed : g.Closed) {part id : NodeId} (named : g.NamedBy part id) :
    part.raw < g.nodes.size := by
  obtain ⟨n, found, part⟩ := named
  exact closed.children id n _ found (Node.partMentioned part)

theorem nameFault (closed : g.Closed) {fuel : Nat} {id : NodeId} (inside : id.raw < g.nodes.size)
    {e : Fault} (failed : g.nameWithin fuel id = .error e) : e = .endless := by
  induction fuel generalizing id with
  | zero => exact (Except.error.inj failed).symm
  | succ fuel ih =>
    obtain ⟨n, found⟩ := nodeOfInside inside
    rw [nameAt found] at failed
    rcases composedNode (g.nameWithin fuel) n with
      ⟨s, spelled, _⟩ | ⟨part, cause, held, lacks, spelled⟩
    · rw [spelled] at failed
      contradiction
    · rw [spelled] at failed
      cases failed
      exact ih (partInside closed ⟨n, found, held⟩) lacks

theorem namedEnds {fuel : Nat} {id : NodeId} {s : String} (named : g.nameWithin fuel id = .ok s) :
    g.NameEnds id := by
  induction fuel generalizing id s with
  | zero => contradiction
  | succ fuel ih =>
    constructor
    rintro part ⟨n, found, held⟩
    rw [nameAt found] at named
    rcases composedNode (g.nameWithin fuel) n with
      ⟨_, _, each⟩ | ⟨_, _, _, _, spelled⟩
    · obtain ⟨t, below⟩ := each part held
      exact ih below
    · rw [spelled] at named
      contradiction

theorem nameStable {fuel : Nat} {id : NodeId} {s : String} (named : g.nameWithin fuel id = .ok s) :
    g.nameWithin (fuel + 1) id = .ok s := by
  induction fuel generalizing id s with
  | zero => contradiction
  | succ fuel ih =>
    cases found : g.node? id with
    | none => simp [nameWithin, node, found, bind, Except.bind] at named
    | some n =>
      rw [nameAt found] at named ⊢
      rcases composedNode (g.nameWithin fuel) n with
        ⟨_, _, each⟩ | ⟨_, _, _, _, spelled⟩
      · refine (spelledSame fun part held => ?_).symm.trans named
        obtain ⟨t, below⟩ := each part held
        rw [below, ih below]
      · rw [spelled] at named
        contradiction

theorem accIrrefl {α : Type} {r : α → α → Prop} {a : α} (h : Acc r a) : ¬ r a a := by
  induction h with
  | intro a _ ih => exact fun loop => ih a loop loop

theorem nodesFew {ids : List NodeId} (once : ids.Nodup) (inside : ∀ a ∈ ids, a.raw < g.nodes.size) :
    ids.length ≤ g.nodes.size := by
  have each : ids.map NodeId.raw ⊆ List.range g.nodes.size := by
    intro i member
    obtain ⟨a, held, rfl⟩ := List.mem_map.mp member
    exact List.mem_range.mpr (inside a held)
  have apart : (ids.map NodeId.raw).Nodup :=
    List.Nodup.map (fun _ _ same => congrArg NodeId.mk same) once
  simpa using (apart.subperm each).length_le

/- Nodes above one another in a name that ends are different ones, and there are no more of them
than there are nodes. -/
theorem namedBelow (closed : g.Closed) {id : NodeId} (ends : g.NameEnds id)
    (inside : id.raw < g.nodes.size) {path : List NodeId} (once : path.Nodup)
    (nodes : ∀ a ∈ path, a.raw < g.nodes.size) (above : ∀ a ∈ path, TransGen g.NamedBy id a)
    (fuel : Nat) (enough : g.nodes.size < fuel + path.length) :
    ∃ s, g.nameWithin fuel id = .ok s := by
  induction ends generalizing path fuel with
  | intro id below ih =>
    have fresh : id ∉ path := fun again =>
      accIrrefl (Acc.intro id below).transGen (above id again)
    have longer : (id :: path).Nodup := List.nodup_cons.mpr ⟨fresh, once⟩
    have all : ∀ a ∈ id :: path, a.raw < g.nodes.size :=
      List.forall_mem_cons.mpr ⟨inside, nodes⟩
    have more := nodesFew longer all
    obtain ⟨n, found⟩ := nodeOfInside inside
    cases fuel with
    | zero =>
      rw [List.length_cons] at more
      omega
    | succ fuel =>
      rw [nameAt found]
      rcases composedNode (g.nameWithin fuel) n with
        ⟨s, spelled, _⟩ | ⟨part, e, held, lacks, _⟩
      · exact ⟨s, spelled⟩
      · have link : g.NamedBy part id := ⟨n, found, held⟩
        have higher : ∀ a ∈ id :: path, TransGen g.NamedBy part a :=
          List.forall_mem_cons.mpr ⟨.single link, fun a member => .head link (above a member)⟩
        obtain ⟨t, named⟩ := ih part link (partInside closed link) longer all higher
          fuel (by rw [List.length_cons]; omega)
        rw [named] at lacks
        contradiction

theorem nameOrEndless (closed : g.Closed) {id : NodeId} (inside : id.raw < g.nodes.size) :
    (g.NameEnds id → ∃ s, g.displayName id = .ok s ∧
        ∀ fuel, g.nodes.size < fuel → g.nameWithin fuel id = .ok s) ∧
      (¬ g.NameEnds id → ∀ fuel, g.nameWithin fuel id = .error .endless) := by
  constructor
  · intro ends
    obtain ⟨s, named⟩ := namedBelow closed ends inside .nil nofun nofun
      (g.nodes.size + 1) (Nat.lt_succ_self _)
    refine ⟨s, named, fun fuel enough => ?_⟩
    induction enough with
    | refl => exact named
    | step _ ih => exact nameStable ih
  · intro endless fuel
    cases answer : g.nameWithin fuel id with
    | ok s => exact absurd (namedEnds answer) endless
    | error e => rw [nameFault closed inside answer]

end Graph
end ObjectLayout
