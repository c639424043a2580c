import ObjectLayout.Proofs.Graph.Growth

/-! Where nodes hold handles. A graph all of whose handles name a node is closed: whatever is reached
from one of its nodes is a node of it again. -/
namespace ObjectLayout

inductive Node.Mentions (id : NodeId) : Node → Prop
  | argument {r : Record} {p} (member : p ∈ r.params) (ty : p.type? = some id) :
      Mentions id (.record r)
  | parent {r : Record} {p} (member : p ∈ r.parents) (ty : p.ty = id) : Mentions id (.record r)
  | member {r : Record} {m} (member : m ∈ r.members) (ty : m.ty = id) : Mentions id (.record r)
  | content {c : Container} {p} (member : p ∈ c.params) (ty : p.type? = some id) :
      Mentions id (.container c)
  | element (length : UInt64) : Mentions id (.array id length)
  | underlying (name : String) : Mentions id (.typedef name id)
  | pointee : Mentions id (.pointer id)
  | referent : Mentions id (.reference id)
  | target (size align : UInt64) : Mentions id (.allocator id size align)

theorem Node.mentionsChild {n : Node} {id : NodeId} : n.Mentions id ↔ id ∈ n.children := by
  constructor
  · intro h
    cases h with
    | argument member ty =>
      exact List.mem_append_left _ (List.mem_append_left _ (List.mem_filterMap.mpr ⟨_, member, ty⟩))
    | parent member ty =>
      exact List.mem_append_left _ (List.mem_append_right _ (List.mem_map.mpr ⟨_, member, ty⟩))
    | member member ty => exact List.mem_append_right _ (List.mem_map.mpr ⟨_, member, ty⟩)
    | content member ty => exact List.mem_filterMap.mpr ⟨_, member, ty⟩
    | element | underlying | pointee | referent | target => exact List.mem_singleton_self id
  · intro child
    cases n with
    | record r =>
      simp only [children, List.mem_append, List.mem_filterMap, List.mem_map] at child
      rcases child with (⟨p, member, ty⟩ | ⟨p, member, ty⟩) | ⟨m, member, ty⟩
      · exact .argument member ty
      · exact .parent member ty
      · exact .member member ty
    | container c =>
      obtain ⟨p, member, ty⟩ := List.mem_filterMap.mp child
      exact .content member ty
    | array element length => exact List.mem_singleton.mp child ▸ .element length
    | typedef name underlying => exact List.mem_singleton.mp child ▸ .underlying name
    | pointer pointee => exact List.mem_singleton.mp child ▸ .pointee
    | reference pointee => exact List.mem_singleton.mp child ▸ .referent
    | allocator target size align => exact List.mem_singleton.mp child ▸ .target size align
    | primitive | enum | incomplete | dummy => contradiction

structure Graph.Closed (g : Graph) : Prop where
  roots : ∀ id ∈ g.roots, id.raw < g.nodes.size
  slots : g.SlotsResolve
  children : ∀ place n id, g.node? place = some n → n.Mentions id → id.raw < g.nodes.size

namespace Graph

theorem closedHandles {g : Graph} (closed : g.Closed) {id : NodeId} (held : id ∈ g.handles) :
    id.raw < g.nodes.size := by
  simp only [handles, List.mem_append, List.mem_filterMap, List.mem_flatMap] at held
  rcases held with (root | ⟨entry, member, filled⟩) | ⟨n, member, child⟩
  · exact closed.roots id root
  · obtain ⟨i, inside, at_i⟩ := Vector.mem_iff_getElem.mp (Vector.mem_toList_iff.mp member)
    obtain ⟨kind, same⟩ := Primitive.indexAll ⟨i, inside⟩
    refine closed.slots kind id ?_
    simp only [slot, same]
    exact at_i.trans filled
  · obtain ⟨i, at_i⟩ := Array.mem_iff_getElem?.mp (Array.mem_toList_iff.mp member)
    exact closed.children ⟨i⟩ n id at_i (Node.mentionsChild.mpr child)

theorem closedWhole {g : Graph} (closed : g.Closed) : g.firstDangling = none := by
  rw [firstDangling, List.find?_eq_none]
  intro id held
  simpa [isDangling] using closedHandles closed held

theorem wholeClosed {g : Graph} (whole : g.firstDangling = none) : g.Closed := by
  have inside : ∀ id ∈ g.handles, id.raw < g.nodes.size := by
    rw [firstDangling, List.find?_eq_none] at whole
    exact fun id held => by simpa [isDangling] using whole id held
  refine ⟨fun id root => ?_, fun kind id filled => ?_, fun place n id found mentions => ?_⟩
  · exact inside id (List.mem_append_left _ (List.mem_append_left _ root))
  · refine inside id (List.mem_append_left _ (List.mem_append_right _
      (List.mem_filterMap.mpr ⟨some id, ?_, rfl⟩)))
    rw [← filled]
    exact Vector.mem_toList_iff.mpr (Vector.getElem_mem _)
  · refine inside id (List.mem_append_right _
      (List.mem_flatMap.mpr ⟨n, ?_, Node.mentionsChild.mp mentions⟩))
    exact Array.mem_toList_iff.mpr (Array.mem_of_getElem? found)

end Graph
end ObjectLayout
