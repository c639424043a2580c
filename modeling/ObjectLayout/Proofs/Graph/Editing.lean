import ObjectLayout.Proofs.Expansion.Coherence

/-! A graph that is edited by hand: nodes are allocated and shared, records are changed, roots are
added, and marks are taken and gone back to, in any order and any number of times. Going back to a
mark undoes all that came after it, and the slots name exactly the primitives at any time. -/
namespace ObjectLayout

/- A node of any kind is pushed, with whatever it is made of; a primitive may be shared instead. A mark
is gone back to by its place among those that were taken, and stays good, also when the graph has
been taken back behind it. -/
inductive Edit where
  | push (n : Node)
  | share (kind : Primitive)
  | root (id : NodeId)
  | change (id : NodeId) (f : Record → Record)
  | mark
  | back (place : Nat)

namespace Edit

def isSince (m : Mark) : Edit → Bool
  | .change id _ => m.isNewer id
  | .push _ | .share _ | .root _ | .mark | .back _ => true

def isPlain : Edit → Bool
  | .push n => !n.isPrimitive
  | .share _ | .root _ | .change _ _ | .mark | .back _ => true

end Edit

structure Draft where
  graph : Graph
  marks : List Mark

namespace Draft

def start (g : Graph) : Draft := ⟨g, [g.mark]⟩

def back (d : Draft) (place : Nat) : Draft :=
  match d.marks[place]? with
  | some m => { d with graph := d.graph.rollback m }
  | none => d

def edit (d : Draft) : Edit → Draft
  | .push n => { d with graph := (d.graph.push n).2 }
  | .share kind => { d with graph := (d.graph.addPrimitive kind).2 }
  | .root id => { d with graph := d.graph.addRoot id }
  | .change id f => { d with graph := (d.graph.modifyRecord id f).getD d.graph }
  | .mark => { d with marks := d.marks ++ [d.graph.mark] }
  | .back place => d.back place

def run (d : Draft) (edits : List Edit) : Draft := edits.foldl edit d

theorem runKeeps {P : Draft → Prop} {allowed : Edit → Bool}
    (each : ∀ d e, P d → allowed e = true → P (d.edit e)) {edits : List Edit}
    (all : ∀ e ∈ edits, allowed e = true) {d : Draft} (held : P d) : P (d.run edits) :=
  List.foldlRecOn edits edit held (fun d kept e member => each d e kept (all e member))

theorem changeCases (g : Graph) (id : NodeId) (f : Record → Record) :
    (g.modifyRecord id f).getD g = g ∨ ∃ r, g.node? id = some (.record r) ∧
      (g.modifyRecord id f).getD g = g.setRecord id (f r) := by
  cases found : g.node? id with
  | none => exact .inl (by simp [Graph.modifyRecord, found])
  | some n =>
    cases n with
    | record r => exact .inr ⟨r, rfl, by simp [Graph.modifyRecordFound found]⟩
    | _ => exact .inl (by simp [Graph.modifyRecord, found])

structure Since (first : Graph) (d : Draft) : Prop where
  graph : d.graph.Continues first
  marks : ∀ m ∈ d.marks, first.nodes.size ≤ m.nodes ∧ first.roots.length ≤ m.roots

theorem startSince (g : Graph) : Since g (start g) := by
  refine ⟨Graph.continuesRefl g, fun m member => ?_⟩
  cases List.mem_singleton.mp member
  exact ⟨Nat.le_refl _, Nat.le_refl _⟩

theorem editSince {first : Graph} (slots : first.SlotsResolve) (d : Draft) (e : Edit)
    (h : Since first d) (newer : e.isSince first.mark = true) : Since first (d.edit e) := by
  cases e with
  | push n => exact ⟨Graph.continuesPush h.graph n, h.marks⟩
  | share kind => exact ⟨Graph.continuesAddPrimitive h.graph kind, h.marks⟩
  | root id => exact ⟨Graph.continuesAddRoot h.graph id, h.marks⟩
  | change id f =>
    have above : first.nodes.size ≤ id.raw := of_decide_eq_true newer
    refine ⟨?_, h.marks⟩
    rcases changeCases d.graph id f with same | ⟨r, found, same⟩ <;> rw [edit, same]
    · exact h.graph
    · exact Graph.continuesSetRecord h.graph found above _
  | mark =>
    refine ⟨h.graph, fun m member => ?_⟩
    rcases List.mem_append.mp member with old | new
    · exact h.marks m old
    · cases List.mem_singleton.mp new
      exact ⟨h.graph.size, h.graph.roots.length_le⟩
  | back place =>
    rw [edit, back]
    cases taken : d.marks[place]? with
    | none => exact h
    | some m =>
      obtain ⟨nodes, roots⟩ := h.marks m (List.mem_of_getElem? taken)
      exact ⟨Graph.continuesRollback h.graph slots nodes roots, h.marks⟩

theorem rollbackUndoes {g : Graph} {edits : List Edit} (slots : g.SlotsResolve)
    (newer : ∀ e ∈ edits, e.isSince g.mark = true) :
    ((start g).run edits).graph.rollback g.mark = g :=
  Graph.continuesRestores (runKeeps (editSince slots) newer (startSince g)).graph slots

def sampleGraph : Graph := (Graph.empty.addPrimitive .int32).2.addRoot ⟨0⟩

/- A primitive is shared for the first time behind an inner mark, its slot is freed and filled again,
and the inner mark is gone back to once more from behind it and once from before it. -/
def sampleEdits : List Edit :=
  [.push (.record ⟨.structKind, "Cell", "Cell", 8, 8, false, [], [], [], []⟩), .share .int32, .mark,
   .share .bool, .root ⟨0⟩, .change ⟨1⟩ (fun r => { r with members := [⟨"on", ⟨2⟩, 0, 1⟩] }),
   .back 1, .push (.array ⟨0⟩ 4), .share .bool, .mark, .back 1, .share .float64, .back 2, .back 0,
   .push (.incomplete "late"), .share .bool, .back 2, .root ⟨1⟩]

theorem sampleUndone :
    sampleGraph.SlotsResolve ∧ (∀ e ∈ sampleEdits, e.isSince sampleGraph.mark = true) ∧
      ((start sampleGraph).run sampleEdits).graph.rollback sampleGraph.mark = sampleGraph :=
  have slots : sampleGraph.SlotsResolve :=
    (Session.addPrimitiveResolves Graph.emptySlotsResolve .int32).2
  have newer : ∀ e ∈ sampleEdits, e.isSince sampleGraph.mark = true := by decide
  ⟨slots, newer, rollbackUndoes slots newer⟩

theorem editAccurate (d : Draft) (e : Edit) (h : d.graph.Accurate) (plain : e.isPlain = true) :
    (d.edit e).graph.Accurate := by
  cases e with
  | push n => exact Graph.pushAccurate h (by simpa [Edit.isPlain] using plain)
  | share kind => exact Graph.addPrimitiveAccurate h kind
  | root id => exact h
  | change id f =>
    rcases changeCases d.graph id f with same | ⟨r, found, same⟩ <;> rw [edit, same]
    · exact h
    · exact Graph.setRecordAccurate h found _
  | mark => exact h
  | back place =>
    rw [edit, back]
    cases d.marks[place]? with
    | none => exact h
    | some m => exact Graph.rollbackAccurate h m

structure Interned (g : Graph) : Prop where
  slot : ∀ kind id, g.slot kind = some id ↔ g.node? id = some (.primitive kind)
  unique : ∀ kind a b, g.node? a = some (.primitive kind) → g.node? b = some (.primitive kind) → a = b
  shared : ∀ kind, (g.addPrimitive kind).2.node? (g.addPrimitive kind).1 = some (.primitive kind)

theorem slotsExact {edits : List Edit} (plain : ∀ e ∈ edits, e.isPlain = true) :
    Interned ((start .empty).run edits).graph := by
  have accurate : ((start .empty).run edits).graph.Accurate :=
    runKeeps (P := fun d => d.graph.Accurate) editAccurate plain Graph.emptyAccurate
  refine ⟨accurate, fun kind a b first second => ?_, Graph.addPrimitiveNode accurate⟩
  have filled := (accurate kind a).mpr first
  rw [(accurate kind b).mpr second] at filled
  exact (Option.some.inj filled).symm

theorem sampleSlotsExact :
    (∀ e ∈ sampleEdits, e.isPlain = true) ∧ Interned ((start .empty).run sampleEdits).graph :=
  have plain : ∀ e ∈ sampleEdits, e.isPlain = true := by decide
  ⟨plain, slotsExact plain⟩

end Draft
end ObjectLayout
