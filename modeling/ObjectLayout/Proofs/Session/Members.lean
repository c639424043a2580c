import Mathlib.Data.List.Forall2
import ObjectLayout.Proofs.Session.History

/-! The members of a record in a session over a graph of its own, after any history of calls: the fields
of the record, none lost and none twice, by their offsets. Fields of one offset, as in a union or among
bit fields of one word, stay as they are declared. -/
namespace ObjectLayout

structure OffsetOrder (fields order : List Field) : Prop where
  each : order.Perm fields
  ascending : order.Pairwise (fun a b => a.bitOffset ≤ b.bitOffset)
  declared : ∀ offset, order.filter (fun f => f.bitOffset = offset) =
    fields.filter (fun f => f.bitOffset = offset)

def Field.notAfter (a b : Field) : Bool := a.bitOffset ≤ b.bitOffset

theorem Field.notAfterTotal (a b : Field) : (a.notAfter b || b.notAfter a) = true := by
  simpa [notAfter] using UInt64.le_total a.bitOffset b.bitOffset

theorem Field.notAfterTrans (a b c : Field) (first : a.notAfter b = true)
    (second : b.notAfter c = true) : a.notAfter c = true :=
  decide_eq_true (UInt64.le_trans (of_decide_eq_true first) (of_decide_eq_true second))

def fieldOrder (fields : List Field) : List Field := fields.mergeSort Field.notAfter

theorem fieldOrdered (fields : List Field) : OffsetOrder fields (fieldOrder fields) := by
  have each : (fieldOrder fields).Perm fields := List.mergeSort_perm fields _
  refine ⟨each, ?_, fun offset => ?_⟩
  · have sorted := List.pairwise_mergeSort Field.notAfterTrans Field.notAfterTotal fields
    exact sorted.imp of_decide_eq_true
  · -- the fields of one offset are in order already, so the sorting keeps them as they are
    have level : (fields.filter (fun f => f.bitOffset = offset)).Pairwise
        (fun a b => a.notAfter b = true) := by
      refine List.pairwise_of_forall_mem_list (fun a left b right => ?_)
      have first : a.bitOffset = offset := by simpa using (List.mem_filter.mp left).2
      have second : b.bitOffset = offset := by simpa using (List.mem_filter.mp right).2
      simp [Field.notAfter, first, second]
    have kept := List.sublist_mergeSort Field.notAfterTrans Field.notAfterTotal level
      List.filter_sublist
    have inside := kept.filter (fun f => f.bitOffset = offset)
    simp only [List.filter_filter, Bool.and_self] at inside
    exact (inside.eq_of_length (each.filter _).length_eq.symm).symm

theorem sortedTogether {α β : Type} {R : α → β → Prop} {le : α → α → Bool} {less : β → β → Bool}
    (alike : ∀ {a b x y}, R a x → R b y → le a b = less x y) {xs : List α} {ys : List β}
    (h : List.Forall₂ R xs ys) : List.Forall₂ R (xs.mergeSort le) (ys.mergeSort less) := by
  obtain ⟨length, related⟩ := List.forall₂_iff_zip.mp h
  let sorted := (xs.zip ys).mergeSort (fun p q => le p.1 q.1)
  have first : sorted.map Prod.fst = xs.mergeSort le := by
    rw [List.map_mergeSort (s := le) (fun _ _ _ _ => rfl), List.map_fst_zip (Nat.le_of_eq length)]
  have second : sorted.map Prod.snd = ys.mergeSort less := by
    rw [List.map_mergeSort (s := less) (fun p left q right => alike (related left) (related right)),
      List.map_snd_zip (Nat.le_of_eq length.symm)]
  rw [← first, ← second, List.forall₂_map_left_iff, List.forall₂_map_right_iff, List.forall₂_same]
  exact fun p member => related (List.mem_mergeSort.mp member)

theorem layoutFields {link : TypeId → NodeId → Prop} {fields : List Field} {members : List Member}
    (h : List.Forall₂ (MemberDescribes link) fields members) :
    List.Forall₂ (MemberDescribes link) (fieldOrder fields) (Expansion.layoutOrder members) := by
  refine sortedTogether (fun first second => ?_) h
  simp only [Field.notAfter, first.offset, second.offset]

namespace Session
open Expansion

variable {t : Table} {o : Options}

theorem recordDeclared {s : Session} (settled : Settled t o True s) {id : NodeId} {r : Record}
    (node : s.graph.node? id = some (.record r)) :
    ∃ ty, s.lookup ty = some id ∧ Describes t o (Linked t o.chasePointers s) ty (.record r) := by
  rcases (settled.ready.coherent trivial).covered id _ node with stub | ⟨ty, looked⟩
  · contradiction
  · obtain ⟨n, same, described⟩ := settled.described trivial ty id looked
    cases node.symm.trans same
    exact ⟨ty, looked, described⟩

theorem membersSorted {calls : List Call} {answers} {s : Session} {id : NodeId} {r : Record}
    (valid : t.validate = .ok ()) (ran : run t o (.start .empty) calls = .ok (answers, s))
    (node : s.graph.node? id = some (.record r)) :
    ∃ ty e d info x order, s.lookup ty = some id ∧ t.entry? ty = some e ∧ e.type = .record d ∧
      t.decl? d = some (.record info (some x)) ∧ OffsetOrder x.fields order ∧
      List.Forall₂ (MemberDescribes (Linked t o.chasePointers s)) order r.members := by
  have settled : Settled t o True s := runSettled (Table.validSound valid) emptySettled ran
  obtain ⟨ty, looked, described⟩ := recordDeclared settled node
  cases described with
  | @complete e _ found defined built =>
    obtain ⟨type, spelling⟩ := e
    cases built with
    | @record d info x size align params parents members decl sized aligned args bases fields =>
      exact ⟨ty, _, d, info, x, fieldOrder x.fields, looked, found, rfl, decl, fieldOrdered x.fields,
        layoutFields fields⟩

/- A union of a word with bit fields and the address of the record itself, behind which lies a member at
the last offset that there is; and a record around it that has no layout. -/
def packedTable : Table where
  types := #[⟨.builtin .uint, none⟩, ⟨.builtin .int128, none⟩, ⟨.record ⟨0⟩, none⟩,
    ⟨.pointer ⟨2⟩, none⟩, ⟨.record ⟨1⟩, none⟩]
  decls := #[
    .record ⟨.unionKind, "Packed", "Packed", false⟩
      (some ⟨128, 64, [⟨"last", ⟨3⟩, 18446744073709551615, none⟩, ⟨"bits", ⟨0⟩, 32, some 3⟩,
        ⟨"self", ⟨3⟩, 0, none⟩, ⟨"word", ⟨0⟩, 0, none⟩, ⟨"bits", ⟨0⟩, 32, some 5⟩], [], [], none⟩),
    .record ⟨.structKind, "Broken", "Broken", false⟩
      (some ⟨256, 64, [⟨"packed", ⟨2⟩, 0, none⟩, ⟨"wide", ⟨1⟩, 128, none⟩], [], [], none⟩)]
  roots := []

def packedRecord : Record where
  kind := .unionKind
  name := "Packed"
  qualifiedName := "Packed"
  size := 16
  align := 8
  isDynamic := false
  params := []
  parents := []
  members := [⟨"self", ⟨1⟩, 0, 0⟩, ⟨"word", ⟨2⟩, 0, 0⟩, ⟨"bits", ⟨2⟩, 32, 3⟩, ⟨"bits", ⟨2⟩, 32, 5⟩,
    ⟨"last", ⟨1⟩, 18446744073709551615, 0⟩]
  functions := []

def packedSession : Session where
  graph := {
    nodes := #[.record packedRecord, .pointer ⟨0⟩, .primitive .uint32]
    roots := [⟨0⟩]
    slots := Graph.empty.slots.set (Primitive.index .uint32) (some ⟨2⟩) }
  memo := ⟨[(⟨0⟩, ⟨2⟩), (⟨3⟩, ⟨1⟩), (⟨2⟩, ⟨0⟩)]⟩
  depth := 0

/- The members as they are found, and the session right before they are put in order. -/
def packedDeclared : List Member :=
  [⟨"last", ⟨1⟩, 18446744073709551615, 0⟩, ⟨"bits", ⟨2⟩, 32, 3⟩, ⟨"self", ⟨1⟩, 0, 0⟩,
    ⟨"word", ⟨2⟩, 0, 0⟩, ⟨"bits", ⟨2⟩, 32, 5⟩]

def packedParts : Session where
  graph := {
    nodes := #[.record { packedRecord with members := [] }, .pointer ⟨0⟩, .primitive .uint32]
    roots := []
    slots := packedSession.graph.slots }
  memo := packedSession.memo
  depth := 1

theorem packedOrder : layoutOrder packedDeclared = packedRecord.members := by
  simp [layoutOrder, packedDeclared, packedRecord, List.mergeSort]

theorem packedFilled :
    expandType packedTable ⟨true, false, .lp64⟩ (Expansion.expand packedTable ⟨true, false, .lp64⟩ 41)
        ⟨2⟩ (.record ⟨0⟩) { start .empty with depth := 1 } =
      .ok ⟨0⟩ (packedParts.refill ⟨0⟩ packedRecord) := by
  have complete : packedTable.isComplete ⟨2⟩ = .ok true := by decide
  have sized : packedTable.sizeInBits ⟨2⟩ = .ok 128 := by decide
  have aligned : packedTable.alignInBits ⟨2⟩ = .ok 64 := by decide
  have node : packedParts.graph.node? ⟨0⟩ = some (.record { packedRecord with members := [] }) := rfl
  simp only [expandType, askOk complete, pure_bind, if_true]
  rw [expandRecordRuns rfl sized aligned]
  simp only [Option.getD_none, List.mapM_nil, pure_bind]
  refine (thenRuns (?_ : _ = EStateM.Result.ok packedDeclared packedParts) _).trans ?_
  · rfl
  · refine (fillRuns node _).trans ?_
    -- a sort by halves does not evaluate, so it is rewritten and not computed
    rw [packedOrder]
    rfl

theorem packedAnswer : (start .empty).answer packedTable ⟨true, false, .lp64⟩ (.expandRoot ⟨2⟩) =
    .ok (.ok ⟨0⟩, packedSession) := by
  have found : packedTable.entry? ⟨2⟩ = some ⟨.record ⟨0⟩, none⟩ := rfl
  have entered : Expansion.expand packedTable ⟨true, false, .lp64⟩ (fuel packedTable) ⟨2⟩
      (start .empty) = .ok ⟨0⟩ { packedSession with graph := { packedSession.graph with roots := [] } } := by
    rw [show fuel packedTable = 41 + 1 from rfl, Expansion.expand, expandWithFresh rfl found]
    simp only [TypeClass.sugarTarget, deeper]
    rw [show (start .empty).depth + 1 = 1 from rfl, packedFilled]
    rfl
  have expanded : (start .empty).expand packedTable ⟨true, false, .lp64⟩ ⟨2⟩ =
      .ok (.ok ⟨0⟩, { packedSession with graph := { packedSession.graph with roots := [] } }) := by
    rw [expand, show { start .empty with depth := 0 } = start .empty from rfl, entered]
  rw [answer, expandRoot, expanded]
  rfl

theorem packedRun : run packedTable ⟨true, false, .lp64⟩ (.start .empty)
    [.expand ⟨4⟩, .expandRoot ⟨2⟩, .expand ⟨4⟩] =
      .ok ([.error (.builtin .int128), .ok ⟨0⟩, .error (.builtin .int128)], packedSession) := by
  have before : (start .empty).answer packedTable ⟨true, false, .lp64⟩ (.expand ⟨4⟩) =
      .ok (.error (.builtin .int128), start .empty) := by
    decide +kernel
  have after : packedSession.answer packedTable ⟨true, false, .lp64⟩ (.expand ⟨4⟩) =
      .ok (.error (.builtin .int128), packedSession) := by
    decide +kernel
  simp only [run, before, packedAnswer, after, bind, Except.bind]

theorem packedSorted :
    ∃ ty e d info x order, packedSession.lookup ty = some ⟨0⟩ ∧ packedTable.entry? ty = some e ∧
      e.type = .record d ∧ packedTable.decl? d = some (.record info (some x)) ∧
      OffsetOrder x.fields order ∧
      List.Forall₂ (MemberDescribes (Linked packedTable true packedSession)) order
        packedRecord.members :=
  membersSorted (by decide) packedRun rfl

end Session
end ObjectLayout
