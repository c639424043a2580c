import Mathlib.Data.Set.Function
import Mathlib.Logic.Relation
import ObjectLayout.Graph.Basic

/-! Graphs that differ in the handles of their nodes only. What is below a node of one graph is what
is below a node of another one, renamed, if the two nodes are twins: nodes of which each has just
one twin, with the same data and with twins for children. -/
namespace ObjectLayout

variable (rename : NodeId → NodeId)

def TemplateParam.renamed : TemplateParam → TemplateParam
  | type ty qualifiers => type (rename ty) qualifiers
  | value ty text => value (rename ty) text
  | template name => template name

def Parent.renamed (p : Parent) : Parent := { p with ty := rename p.ty }

def Member.renamed (m : Member) : Member := { m with ty := rename m.ty }

def Record.renamed (r : Record) : Record :=
  { r with
    params := r.params.map (TemplateParam.renamed rename)
    parents := r.parents.map (Parent.renamed rename)
    members := r.members.map (Member.renamed rename) }

def Container.renamed (c : Container) : Container :=
  { c with params := c.params.map (TemplateParam.renamed rename) }

def Node.renamed : Node → Node
  | .primitive kind => .primitive kind
  | .record r => .record (r.renamed rename)
  | .container c => .container (c.renamed rename)
  | .enum e => .enum e
  | .array id length => .array (rename id) length
  | .typedef name id => .typedef name (rename id)
  | .pointer id => .pointer (rename id)
  | .reference id => .reference (rename id)
  | .incomplete label => .incomplete label
  | .dummy size align => .dummy size align
  | .allocator id size align => .allocator (rename id) size align

theorem paramsRenamed (ps : List TemplateParam) :
    (ps.map (TemplateParam.renamed rename)).filterMap TemplateParam.type? =
      (ps.filterMap TemplateParam.type?).map rename := by
  rw [List.filterMap_map, List.map_filterMap]
  congr 1
  funext p
  cases p <;> rfl

theorem Node.childrenRenamed (n : Node) :
    (n.renamed rename).children = n.children.map rename := by
  cases n with
  | record r =>
    simp only [renamed, Record.renamed, children, paramsRenamed, List.map_append, List.map_map]
    rfl
  | container c => exact paramsRenamed rename c.params
  | _ => rfl

namespace Graph

variable {g h : Graph} {twin : NodeId → NodeId → Prop}

def Points (g : Graph) (a b : NodeId) : Prop := ∃ n, g.node? a = some n ∧ b ∈ n.children

def below (g : Graph) (id : NodeId) : Set NodeId := {a | Relation.ReflTransGen g.Points id a}

structure Renames (g h : Graph) (first other : NodeId) (rename : NodeId → NodeId) : Prop where
  start : rename first = other
  bijective : Set.BijOn rename (g.below first) (h.below other)
  nodes : ∀ a ∈ g.below first,
    ∃ n, g.node? a = some n ∧ h.node? (rename a) = some (n.renamed rename)

structure Twins (g h : Graph) (twin : NodeId → NodeId → Prop) : Prop where
  one : ∀ {a b c}, twin a b → twin a c → b = c
  only : ∀ {a b c}, twin a c → twin b c → a = b
  nodes : ∀ {a b}, twin a b → ∃ n m, g.node? a = some n ∧ h.node? b = some m ∧
    (∀ c ∈ n.children, ∃ d, twin c d) ∧
    ∀ rename, (∀ c d, twin c d → rename c = d) → m = n.renamed rename

open Classical in
noncomputable def twinOf (twin : NodeId → NodeId → Prop) (a : NodeId) : NodeId :=
  if has : ∃ b, twin a b then has.choose else a

theorem twinOfTwin (twins : Twins g h twin) {a b : NodeId} (both : twin a b) :
    twinOf twin a = b := by
  have has : ∃ b, twin a b := ⟨b, both⟩
  rw [twinOf, dif_pos has]
  exact twins.one has.choose_spec both

theorem twinsNode (twins : Twins g h twin) {a b : NodeId} (both : twin a b) :
    ∃ n, g.node? a = some n ∧ h.node? b = some (n.renamed (twinOf twin)) ∧
      ∀ c ∈ n.children, twin c (twinOf twin c) := by
  obtain ⟨n, m, at_a, at_b, children, same⟩ := twins.nodes both
  refine ⟨n, at_a, ?_, fun c member => ?_⟩
  · rw [at_b, same _ (fun c d => twinOfTwin twins)]
  · obtain ⟨d, both⟩ := children c member
    rwa [twinOfTwin twins both]

theorem twinsBelow (twins : Twins g h twin) {first other a : NodeId} (both : twin first other)
    (reached : a ∈ g.below first) : twin a (twinOf twin a) ∧ twinOf twin a ∈ h.below other := by
  induction reached with
  | refl =>
    rw [twinOfTwin twins both]
    exact ⟨both, .refl⟩
  | tail before step ih =>
    obtain ⟨m, at_b, child⟩ := step
    obtain ⟨n, at_n, renamed, children⟩ := twinsNode twins ih.1
    rw [at_b] at at_n
    cases at_n
    refine ⟨children _ child, ih.2.tail ⟨_, renamed, ?_⟩⟩
    rw [Node.childrenRenamed]
    exact List.mem_map_of_mem child

theorem twinsAbove (twins : Twins g h twin) {first other b : NodeId} (both : twin first other)
    (reached : b ∈ h.below other) : ∃ a ∈ g.below first, twinOf twin a = b := by
  induction reached with
  | refl => exact ⟨first, .refl, twinOfTwin twins both⟩
  | tail before step ih =>
    obtain ⟨a, above, rfl⟩ := ih
    obtain ⟨m, at_b, child⟩ := step
    obtain ⟨n, at_a, renamed, children⟩ := twinsNode twins (twinsBelow twins both above).1
    rw [renamed] at at_b
    cases at_b
    rw [Node.childrenRenamed] at child
    obtain ⟨c, member, rfl⟩ := List.mem_map.mp child
    exact ⟨c, above.tail ⟨n, at_a, member⟩, rfl⟩

theorem twinsRename (twins : Twins g h twin) {first other : NodeId} (both : twin first other) :
    ∃ rename, Renames g h first other rename := by
  refine ⟨twinOf twin, twinOfTwin twins both, ⟨?_, ?_, ?_⟩, ?_⟩
  · exact fun a reached => (twinsBelow twins both reached).2
  · intro a reached b also same
    have here := (twinsBelow twins both reached).1
    have there := (twinsBelow twins both also).1
    exact twins.only here (same ▸ there)
  · exact fun b reached => twinsAbove twins both reached
  · intro a reached
    obtain ⟨n, at_a, renamed, _⟩ := twinsNode twins (twinsBelow twins both reached).1
    exact ⟨n, at_a, renamed⟩

end Graph
end ObjectLayout
