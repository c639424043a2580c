import Mathlib.Data.List.Sort
import ObjectLayout.Proofs.Graph.Renaming
import ObjectLayout.Proofs.Session.Meaning
import ObjectLayout.Proofs.Session.Refusal

/-! The nodes of one type in two sessions over a table. A type is described in both by the same node,
but for the handles of its children, and these are again nodes of one type in both. Where addresses
are followed there is nothing else, so that what is below the one is what is below the other. -/
namespace ObjectLayout

theorem pairedMap {α β γ : Type} {R : α → β → Prop} {S : α → γ → Prop} {f : β → γ} {xs : List α}
    {ys : List β} {zs : List γ} (h : List.Forall₂ R xs ys) (k : List.Forall₂ S xs zs)
    (same : ∀ {x y z}, R x y → S x z → z = f y) : zs = ys.map f := by
  induction h generalizing zs with
  | nil =>
    cases k
    rfl
  | cons head tail ih =>
    cases k with
    | cons first rest => rw [List.map_cons, same head first, ih rest]

theorem EnumeratorMap.sameNames {m n : EnumeratorMap}
    (same : ∀ value name, (value, name) ∈ m.entries ↔ (value, name) ∈ n.entries) : m = n := by
  have irreflexive : Std.Irrefl (fun a b : Int64 × String => a.1 < b.1) :=
    ⟨fun _ => Int64.lt_irrefl⟩
  have antisymmetric : Std.Antisymm (fun a b : Int64 × String => a.1 < b.1) :=
    ⟨fun _ _ less more => absurd (Int64.lt_trans less more) Int64.lt_irrefl⟩
  obtain ⟨first, ascending⟩ := m
  obtain ⟨second, sorted⟩ := n
  have equal : first = second := ascending.eq_of_mem_iff sorted (fun e => same e.1 e.2)
  subst equal
  rfl

theorem orderRenamed (rename : NodeId → NodeId) (ms : List Member) :
    Expansion.layoutOrder (ms.map (Member.renamed rename)) =
      (Expansion.layoutOrder ms).map (Member.renamed rename) := by
  unfold Expansion.layoutOrder
  rw [List.map_mergeSort]
  intro a _ b _
  rfl

section
variable {t : Table} {o : Options} {link other : TypeId → NodeId → Prop} {rename : NodeId → NodeId}
  (agree : ∀ ty a b, link ty a → other ty b → rename a = b)
include agree

theorem paramRenamed {a : TemplateArgument} {p q : TemplateParam} (h : ParamDescribes link a p)
    (k : ParamDescribes other a q) : q = p.renamed rename := by
  cases h with
  | type isConst child =>
    cases k with
    | type _ twin => rw [TemplateParam.renamed, agree _ _ _ child twin]
  | integral value child =>
    cases k with
    | integral _ twin => rw [TemplateParam.renamed, agree _ _ _ child twin]
  | template name =>
    cases k
    rfl

theorem parentRenamed {b : Base} {p q : Parent} (h : ParentDescribes link b p)
    (k : ParentDescribes other b q) : q = p.renamed rename := by
  obtain ⟨ty, offset⟩ := q
  rw [Parent.renamed, agree _ _ _ h.child k.child, h.offset, ← k.offset]

theorem memberRenamed {f : Field} {m n : Member} (h : MemberDescribes link f m)
    (k : MemberDescribes other f n) : n = m.renamed rename := by
  obtain ⟨name, ty, offset, size⟩ := n
  rw [Member.renamed, agree _ _ _ h.child k.child, h.name, h.offset, h.width, ← k.name, ← k.offset,
    ← k.width]

theorem classRenamed {ty : TypeId} {c : TypeClass} {n m : Node} (h : ClassDescribes t o link ty c n)
    (k : ClassDescribes t o other ty c m) : m = n.renamed rename := by
  cases h with
  | builtin measured =>
    cases k with
    | builtin again =>
      cases measured.symm.trans again
      rfl
  | record decl sized aligned args bases fields =>
    cases k with
    | record decl' sized' aligned' args' bases' fields' =>
      cases decl.symm.trans decl'
      cases sized.symm.trans sized'
      cases aligned.symm.trans aligned'
      rw [pairedMap args args' (paramRenamed agree), pairedMap bases bases' (parentRenamed agree),
        pairedMap fields fields' (memberRenamed agree), orderRenamed]
      rfl
  | enum decl sized names =>
    cases k with
    | enum decl' sized' names' =>
      cases decl.symm.trans decl'
      cases sized.symm.trans sized'
      rw [EnumeratorMap.sameNames (fun value name =>
        (names' value name).trans (names value name).symm)]
      rfl
  | array length child =>
    cases k with
    | array _ twin => rw [Node.renamed, agree _ _ _ child twin]
  | synonym form name child =>
    cases k with
    | synonym _ _ twin => rw [Node.renamed, agree _ _ _ child twin]
  | pointer child =>
    cases k with
    | pointer twin => rw [Node.renamed, agree _ _ _ child twin]
  | reference complete child =>
    cases k with
    | reference _ twin => rw [Node.renamed, agree _ _ _ child twin]
    | address incomplete _ => cases complete.symm.trans incomplete
  | address incomplete child =>
    cases k with
    | address _ twin => rw [Node.renamed, agree _ _ _ child twin]
    | reference complete _ => cases complete.symm.trans incomplete

theorem describesRenamed {ty : TypeId} {n m : Node} (h : Describes t o link ty n)
    (k : Describes t o other ty m) : m = n.renamed rename := by
  cases h with
  | incomplete undefined named =>
    cases k with
    | incomplete _ again =>
      cases named.symm.trans again
      rfl
    | complete _ defined _ => cases undefined.symm.trans defined
  | complete found defined built =>
    cases k with
    | incomplete undefined _ => cases undefined.symm.trans defined
    | complete again _ rebuilt =>
      cases found.symm.trans again
      exact classRenamed agree built rebuilt

end

theorem paramLeads {link : TypeId → NodeId → Prop} {a : TemplateArgument} {p : TemplateParam}
    (h : ParamDescribes link a p) {id : NodeId} (child : p.type? = some id) :
    ∃ part, a.type? = some part ∧ link part id := by
  cases h with
  | type isConst linked | integral value linked =>
    cases child
    exact ⟨_, rfl, linked⟩
  | template name => contradiction

theorem classLeads {t : Table} {o : Options} {link : TypeId → NodeId → Prop} {ty : TypeId}
    {c : TypeClass} {n : Node} (h : ClassDescribes t o link ty c n) {id : NodeId}
    (child : id ∈ n.children) : ∃ part, t.ClassLeads True c part ∧ link part id := by
  cases h with
  | builtin | enum => contradiction
  | array length linked =>
    cases List.mem_singleton.mp child
    exact ⟨_, .element length, linked⟩
  | synonym form name linked =>
    cases List.mem_singleton.mp child
    exact ⟨_, .synonym form name, linked⟩
  | pointer linked =>
    cases List.mem_singleton.mp child
    exact ⟨_, .pointer trivial, linked⟩
  | reference _ linked | address _ linked =>
    cases List.mem_singleton.mp child
    exact ⟨_, .reference trivial, linked⟩
  | record decl sized aligned args bases fields =>
    simp only [Node.children, List.mem_append, List.mem_filterMap, List.mem_map] at child
    rcases child with (⟨p, inside, same⟩ | ⟨p, inside, rfl⟩) | ⟨m, inside, rfl⟩
    · obtain ⟨a, held, described⟩ := pairedWith args inside
      obtain ⟨part, mentioned, linked⟩ := paramLeads described same
      exact ⟨part, .part decl (RecordDef.mentionsArgument held mentioned), linked⟩
    · obtain ⟨b, held, described⟩ := pairedWith bases inside
      exact ⟨b.ty, .part decl (RecordDef.mentionsBase held), described.child⟩
    · rw [Expansion.layoutOrder, List.mem_mergeSort] at inside
      obtain ⟨f, held, described⟩ := pairedWith fields inside
      exact ⟨f.ty, .part decl (RecordDef.mentionsField held), described.child⟩

theorem describesLeads {t : Table} {o : Options} {link : TypeId → NodeId → Prop} {ty : TypeId}
    {n : Node} (h : Describes t o link ty n) {id : NodeId} (child : id ∈ n.children) :
    ∃ part, t.Leads True ty part ∧ link part id := by
  cases h with
  | incomplete => contradiction
  | complete found defined built =>
    obtain ⟨part, leads, linked⟩ := classLeads built child
    exact ⟨part, .complete found defined leads, linked⟩

namespace Session

open Expansion

variable {t : Table} {o : Options}

structure Whole (t : Table) (o : Options) (s : Session) : Prop where
  settled : Settled t o True s
  explored : AllExplored t o s

theorem emptyWhole : Whole t o (.start .empty) := ⟨emptySettled, startExplored .empty⟩

theorem runWhole (sound : t.Sound) {calls : List Call} {answers} {s : Session}
    (ran : run t o (.start .empty) calls = .ok (answers, s)) : Whole t o s := by
  obtain ⟨settled, explored⟩ := runExplored sound emptySettled (startExplored .empty) ran
  exact ⟨settled, explored⟩

theorem answerWhole (sound : t.Sound) {s s' : Session} (h : Whole t o s) {call : Call} {a}
    (ended : s.answer t o call = .ok (a, s')) : Whole t o s' :=
  ⟨answerSettled sound h.settled ended, answerExplored sound h.settled h.explored ended⟩

def SameType (s r : Session) (a b : NodeId) : Prop :=
  ∃ ty, s.lookup ty = some a ∧ r.lookup ty = some b

theorem sameTypeSwap {s r : Session} {a b : NodeId} (h : SameType s r a b) : SameType r s b a := by
  obtain ⟨ty, first, second⟩ := h
  exact ⟨ty, second, first⟩

theorem measuredNode {s : Session} (h : Whole t o s) {ty : TypeId} {id : NodeId}
    (looked : s.lookup ty = some id) {kind : Primitive} (measured : t.MeasuredAs o ty kind) :
    s.graph.node? id = some (.primitive kind) := by
  obtain ⟨n, node, shown⟩ := h.settled.described trivial ty id looked
  obtain ⟨e, builtin, found, same, sized⟩ := measured
  rw [node]
  cases shown with
  | incomplete undefined _ =>
    have complete := Table.plainComplete found (by simp [Table.layoutNext, same]) (by simp [same])
      (by simp [same]) (by simp [same])
    cases undefined.symm.trans complete
  | complete again _ built =>
    cases found.symm.trans again
    rw [same] at built
    cases built with
    | builtin measured =>
      cases sized.symm.trans measured
      rfl

/- Types that share a node are builtin types measured alike, and these share one in every session. -/
theorem sameTypeOne {s r : Session} (h : Whole t o s) (k : Whole t o r) {a b c : NodeId}
    (first : SameType s r a b) (second : SameType s r a c) : b = c := by
  obtain ⟨ty, left, right⟩ := first
  obtain ⟨other, left', right'⟩ := second
  by_cases same : ty = other
  · subst same
    exact Option.some.inj (right.symm.trans right')
  · obtain ⟨kind, measured, measured'⟩ :=
      sharedMeasure (h.settled.ready.coherent trivial) left left' same
    exact primitiveUnique (k.settled.ready.coherent trivial).slots
      (measuredNode k right measured) (measuredNode k right' measured')

theorem linkedKnown {s : Session} {ty : TypeId} {id : NodeId} (h : Linked t true s ty id) :
    ∃ last, t.Desugars ty last ∧ s.lookup last = some id := by
  cases h with
  | known path looked => exact ⟨_, path, looked⟩
  | stub _ _ _ unfollowed => contradiction

theorem sameTypeTwins {s r : Session} (h : Whole t o s) (k : Whole t o r)
    (chases : o.chasePointers = true) : Graph.Twins s.graph r.graph (SameType s r) := by
  refine ⟨sameTypeOne h k,
    fun first second => sameTypeOne k h (sameTypeSwap first) (sameTypeSwap second), ?_⟩
  rintro a b ⟨ty, left, right⟩
  obtain ⟨n, at_a, shown⟩ := h.settled.described trivial ty a left
  obtain ⟨m, at_b, drawn⟩ := k.settled.described trivial ty b right
  rw [chases] at shown drawn
  refine ⟨n, m, at_a, at_b, ?_, ?_⟩
  · intro c member
    obtain ⟨part, leads, linked⟩ := describesLeads shown member
    obtain ⟨last, path, looked⟩ := linkedKnown linked
    have met := (k.explored ty ⟨b, right⟩).parts part leads
    rw [chases] at met
    obtain ⟨d, there⟩ := askedKnown k.explored met path
    exact ⟨d, last, looked, there⟩
  · intro rename agree
    refine describesRenamed ?_ shown drawn
    intro part c d first second
    obtain ⟨last, path, looked⟩ := linkedKnown first
    obtain ⟨final, way, there⟩ := linkedKnown second
    have same := Table.desugarsUnique path way
    exact agree c d ⟨last, looked, same ▸ there⟩

end Session
end ObjectLayout
