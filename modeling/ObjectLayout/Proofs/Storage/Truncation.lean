import ObjectLayout.Proofs.Storage.Recall

/-! Data that was cut short. A reader goes forward only and asks for no byte twice, so what it reads
from the front of some data it reads there whatever follows, or it finds the front too short. Wherever
a stored archive is cut, it is therefore the end of the data that is reported. -/
namespace ObjectLayout

namespace Codec

variable {α β : Type}

def Forward (x : Read α) : Prop :=
  ∀ front back rest a, x (front ++ back) = .ok (a, rest) →
    x front = .error .outOfBytes ∨ ∃ left, x front = .ok (a, left) ∧ rest = left ++ back

theorem readStops {x : Read α} {data : Bytes} {e : ReadError} (stopped : x data = .error e)
    (f : α → Read β) : (x >>= f) data = .error e := by
  simp only [bind, StateT.bind, stopped, Except.bind]

theorem forwardPure (a : α) : Forward (pure a) := by
  intro front back rest b read
  obtain ⟨rfl, rfl⟩ := readPure.mp read
  exact .inr ⟨front, rfl, rfl⟩

theorem forwardRefuse (e : ReadError) : Forward (refuse e : Read α) := by
  intro front back rest a read
  contradiction

theorem forwardThen {x : Read α} {f : α → Read β} (first : Forward x) (next : ∀ a, Forward (f a)) :
    Forward (x >>= f) := by
  intro front back rest b read
  obtain ⟨a, mid, head, tail⟩ := readBind.mp read
  rcases first _ _ _ _ head with short | ⟨left, here, rfl⟩
  · exact .inl (readStops short f)
  · rw [readThen here]
    exact next a _ _ _ _ tail

theorem forwardReadByte : Forward readByte := by
  intro front back rest b read
  cases front with
  | nil => exact .inl rfl
  | cons c front =>
    cases readByteSome.mp read
    exact .inr ⟨front, rfl, rfl⟩

theorem forwardReadBytes (n : Nat) : Forward (readBytes n) := by
  intro front back rest bytes read
  obtain ⟨sized, split⟩ := readBytesSome.mp read
  by_cases enough : n ≤ front.length
  · have taken : bytes <+: front := by
      refine List.prefix_of_prefix_length_le ?_ (List.prefix_append front back) (sized ▸ enough)
      exact split ▸ List.prefix_append bytes rest
    obtain ⟨left, rfl⟩ := taken
    rw [List.append_assoc] at split
    exact .inr ⟨left, readBytesSome.mpr ⟨sized, rfl⟩, (List.append_cancel_left split).symm⟩
  · exact .inl (if_neg enough)

theorem forwardMap {c : Codec α} (h : Forward c.read) (make : α → β) (parts : β → α) :
    Forward (c.map make parts).read :=
  forwardThen h (fun a => forwardPure (make a))

theorem forwardPair {c : Codec α} {d : Codec β} (h : Forward c.read) (k : Forward d.read) :
    Forward (c.pair d).read :=
  forwardThen h (fun a => forwardThen k (fun b => forwardPure (a, b)))

theorem forwardReadNat (width : Nat) : Forward (readNat width) := by
  induction width with
  | zero => exact forwardPure 0
  | succ width ih =>
    exact forwardThen forwardReadByte (fun low => forwardThen ih (fun high => forwardPure _))

theorem forwardReadTimes {c : Codec α} (h : Forward c.read) (n : Nat) : Forward (readTimes c n) := by
  induction n with
  | zero => exact forwardPure []
  | succ n ih => exact forwardThen h (fun a => forwardThen ih (fun rest => forwardPure (a :: rest)))

theorem forwardList {c : Codec α} (h : Forward c.read) : Forward (list c).read :=
  forwardThen (forwardReadNat 8) (fun n => forwardReadTimes h n)

theorem forwardVector {c : Codec α} (h : Forward c.read) (n : Nat) : Forward (vector c n).read := by
  simp only [vector]
  induction n with
  | zero => exact forwardPure #v[]
  | succ n ih => exact forwardThen ih (fun before => forwardThen h (fun a => forwardPure (before.push a)))

theorem forwardOption {c : Codec α} (h : Forward c.read) : Forward (option c).read := by
  refine forwardThen forwardReadByte (fun mark => ?_)
  split
  · exact forwardPure none
  · exact forwardThen h (fun a => forwardPure (some a))
  · exact forwardRefuse _

theorem forwardBool : Forward bool.read := by
  refine forwardThen forwardReadByte (fun mark => ?_)
  split
  · exact forwardPure false
  · exact forwardPure true
  · exact forwardRefuse _

theorem forwardText : Forward text.read := by
  refine forwardThen (forwardReadNat 8) (fun n => forwardThen (forwardReadBytes n) (fun data => ?_))
  split
  · exact forwardPure _
  · exact forwardRefuse _

theorem forwardOneOf [BEq α] (all : List α) : Forward (oneOf all).read := by
  refine forwardThen (forwardReadNat 4) (fun i => ?_)
  split
  · exact forwardPure _
  · exact forwardRefuse _

theorem forwardWord64 : Forward word64.read := forwardMap (forwardReadNat 8) _ _

theorem forwardNodeId : Forward nodeId.read := forwardMap (forwardReadNat 4) _ _

theorem forwardParam : Forward param.read := by
  have marks : Forward qualifiers.read := forwardMap (c := byte) forwardReadByte _ _
  refine forwardThen (forwardReadNat 4) (fun tag => ?_)
  split
  · exact forwardThen (forwardPair forwardNodeId marks) (fun p => forwardPure _)
  · exact forwardThen (forwardPair forwardNodeId forwardText) (fun p => forwardPure _)
  · exact forwardThen forwardText (fun name => forwardPure _)
  · exact forwardRefuse _

theorem forwardRecord : Forward record.read := by
  have params := forwardList forwardParam
  have parents := forwardList (c := parent) (forwardMap (forwardPair forwardNodeId forwardWord64) _ _)
  have members := forwardList (c := member) (forwardMap (forwardPair forwardText
    (forwardPair forwardNodeId (forwardPair forwardWord64 forwardWord64))) _ _)
  have functions := forwardList (c := function) (forwardMap (forwardPair forwardText forwardBool) _ _)
  exact forwardMap (forwardPair (forwardOneOf _) (forwardPair forwardText (forwardPair forwardText
    (forwardPair forwardWord64 (forwardPair forwardWord64 (forwardPair forwardBool
      (forwardPair params (forwardPair parents (forwardPair members functions))))))))) _ _

theorem forwardContainer : Forward container.read :=
  forwardMap (forwardPair forwardText (forwardPair forwardWord64
    (forwardPair forwardWord64 (forwardList forwardParam)))) _ _

theorem forwardEnum : Forward enum.read := by
  have values : Forward enumerators.read :=
    forwardMap (forwardList (forwardPair (forwardMap forwardWord64 _ _) forwardText)) _ _
  exact forwardMap (forwardPair forwardText (forwardPair forwardWord64 values)) _ _

theorem forwardPayload (kind : NodeKind) : Forward (readPayload kind) := by
  cases kind with
  | primitive => exact forwardThen (forwardOneOf _) (fun _ => forwardPure _)
  | record => exact forwardThen forwardRecord (fun _ => forwardPure _)
  | container => exact forwardThen forwardContainer (fun _ => forwardPure _)
  | enum => exact forwardThen forwardEnum (fun _ => forwardPure _)
  | array => exact forwardThen (forwardPair forwardNodeId forwardWord64) (fun _ => forwardPure _)
  | typedef => exact forwardThen (forwardPair forwardText forwardNodeId) (fun _ => forwardPure _)
  | pointer | reference => exact forwardThen forwardNodeId (fun _ => forwardPure _)
  | incomplete => exact forwardThen forwardText (fun _ => forwardPure _)
  | dummy => exact forwardThen (forwardPair forwardWord64 forwardWord64) (fun _ => forwardPure _)
  | allocator =>
    exact forwardThen (forwardPair forwardNodeId (forwardPair forwardWord64 forwardWord64))
      (fun _ => forwardPure _)

theorem forwardNode : Forward node.read := forwardThen (forwardOneOf _) forwardPayload

theorem forwardArchive : Forward archive.read := by
  have named : Forward namedNode.read := forwardMap (forwardPair forwardText forwardNodeId) _ _
  have slots := forwardVector (forwardOption forwardNodeId) Primitive.count
  have graph : Forward graph.read := forwardMap (forwardPair (forwardList forwardNode)
    (forwardPair (forwardList forwardNodeId) slots)) _ _
  exact forwardMap (forwardPair (forwardList named) graph) _ _

theorem cutShort {c : Codec α} (forward : Forward c.read) {a : α} (returns : c.Returns a)
    {front back : Bytes} (split : c.write a = front ++ back) (cut : back ≠ []) :
    c.read front = .error .outOfBytes := by
  have whole := returns []
  rw [List.append_nil, split] at whole
  rcases forward _ _ _ _ whole with short | ⟨left, _, nothing⟩
  · exact short
  · exact absurd (List.append_eq_nil_iff.mp nothing.symm).2 cut

end Codec

namespace Archive

open Codec

theorem cutRefused {a : Archive} (fit : a.Fits) {front : Bytes} (begins : front <+: a.store)
    (cut : front ≠ a.store) : load front = .error (.unreadable .outOfBytes) := by
  obtain ⟨back, split⟩ := begins
  have missing : back ≠ [] := by
    rintro rfl
    exact cut (by rwa [List.append_nil] at split)
  have version : word32.read (front ++ back) = .ok (formatVersion, archive.write a) := by
    rw [split]
    exact exactWord32.returns (by decide) _
  rcases forwardReadNat 4 _ _ _ _ version with short | ⟨left, here, body⟩
  · simp only [load, word32, nat, short]
  · have short := cutShort forwardArchive (archiveReturns fit) body missing
    simp only [load, word32, nat, here, short, ne_eq, not_true_eq_false, if_false]

theorem sampleCut :
    load (sampleArchive.store.take 3) = .error (.unreadable .outOfBytes) ∧
      load (sampleArchive.store.take 150) = .error (.unreadable .outOfBytes) ∧
      load sampleArchive.store.dropLast = .error (.unreadable .outOfBytes) :=
  ⟨cutRefused sampleFits (List.take_prefix _ _) (by decide +kernel),
    cutRefused sampleFits (List.take_prefix _ _) (by decide +kernel),
    cutRefused sampleFits (List.dropLast_prefix _) (by decide +kernel)⟩

end Archive
end ObjectLayout
