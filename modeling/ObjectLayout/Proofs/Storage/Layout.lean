import ObjectLayout.Proofs.Storage.Exact
import ObjectLayout.Storage.Archive

/-! The codecs of an archive, part by part. All are exact but for one thing: the names of an enum are
written in ascending order and read in any, so that different bytes can be read as one map. -/
namespace ObjectLayout

open Codec

/-! What fits: handles below the bound of all handles, and texts and lists whose lengths do. All that
memory holds does so: a handle is a word of 32 bits there, and a length is one of 64. -/

def NodeId.Fits (id : NodeId) : Prop := id.raw < handleBound

def TemplateParam.Fits : TemplateParam → Prop
  | .type ty _ => ty.Fits
  | .value ty text => ty.Fits ∧ TextFits text
  | .template name => TextFits name

def Member.Fits (m : Member) : Prop := TextFits m.name ∧ m.ty.Fits

def Record.Fits (r : Record) : Prop :=
  TextFits r.name ∧ TextFits r.qualifiedName ∧ ListFits TemplateParam.Fits r.params ∧
    ListFits (fun p => p.ty.Fits) r.parents ∧ ListFits Member.Fits r.members ∧
    ListFits (fun f => TextFits f.name) r.functions

def Container.Fits (c : Container) : Prop :=
  TextFits c.name ∧ ListFits TemplateParam.Fits c.params

def EnumeratorMap.Fits (m : EnumeratorMap) : Prop := ListFits (fun e => TextFits e.2) m.entries

def EnumNode.Fits (e : EnumNode) : Prop := TextFits e.name ∧ e.enumerators.Fits

def Node.Fits : Node → Prop
  | .primitive _ | .dummy _ _ => True
  | .record r => r.Fits
  | .container c => c.Fits
  | .enum e => e.Fits
  | .typedef name id => TextFits name ∧ id.Fits
  | .array id _ | .pointer id | .reference id | .allocator id _ _ => id.Fits
  | .incomplete label => TextFits label

def Graph.Fits (g : Graph) : Prop :=
  ListFits Node.Fits g.nodes.toList ∧ ListFits NodeId.Fits g.roots ∧
    ∀ slot ∈ g.slots, ∀ id ∈ slot, id.Fits

def NamedNode.Fits (r : NamedNode) : Prop := TextFits r.name ∧ r.node.Fits

def Archive.Fits (a : Archive) : Prop := ListFits NamedNode.Fits a.roots ∧ a.graph.Fits

instance : DecidablePred NodeId.Fits := fun _ => inferInstanceAs (Decidable (_ < _))

instance : DecidablePred TemplateParam.Fits
  | .type _ _ => inferInstanceAs (Decidable (NodeId.Fits _))
  | .value _ _ => inferInstanceAs (Decidable (_ ∧ _))
  | .template _ => inferInstanceAs (Decidable (TextFits _))

instance : DecidablePred Member.Fits := fun _ => inferInstanceAs (Decidable (_ ∧ _))

instance : DecidablePred Record.Fits := fun _ => inferInstanceAs (Decidable (_ ∧ _))

instance : DecidablePred Container.Fits := fun _ => inferInstanceAs (Decidable (_ ∧ _))

instance : DecidablePred EnumeratorMap.Fits := fun _ => inferInstanceAs (Decidable (ListFits _ _))

instance : DecidablePred EnumNode.Fits := fun _ => inferInstanceAs (Decidable (_ ∧ _))

instance : DecidablePred Node.Fits
  | .primitive _ | .dummy _ _ => inferInstanceAs (Decidable True)
  | .record r => inferInstanceAs (Decidable r.Fits)
  | .container c => inferInstanceAs (Decidable c.Fits)
  | .enum e => inferInstanceAs (Decidable e.Fits)
  | .typedef _ _ => inferInstanceAs (Decidable (_ ∧ _))
  | .array id _ | .pointer id | .reference id | .allocator id _ _ =>
    inferInstanceAs (Decidable id.Fits)
  | .incomplete _ => inferInstanceAs (Decidable (TextFits _))

instance : DecidablePred Graph.Fits := fun _ => inferInstanceAs (Decidable (_ ∧ _))

instance : DecidablePred NamedNode.Fits := fun _ => inferInstanceAs (Decidable (_ ∧ _))

instance : DecidablePred Archive.Fits := fun _ => inferInstanceAs (Decidable (_ ∧ _))

def EnumeratorMap.ofListed (entries : List (Int64 × String)) : EnumeratorMap :=
  entries.foldl (fun m (value, name) => m.insert value name) .empty

namespace EnumeratorMap

theorem placeLast {resolve : String → String} {value : Int64} {name : String}
    {xs : List (Int64 × String)} (above : ∀ x ∈ xs, x.1 < value) :
    place resolve value name xs = xs ++ [(value, name)] := by
  induction xs with
  | nil => rfl
  | cons x xs ih =>
    have less := above x List.mem_cons_self
    have later : ¬ value < x.1 := fun more => Int64.lt_irrefl (Int64.lt_trans less more)
    have other : value ≠ x.1 := fun same => Int64.lt_irrefl (same ▸ less)
    simp only [place, if_neg later, if_neg other, List.cons_append,
      ih (fun y member => above y (List.mem_cons_of_mem x member))]

theorem foldAscending {entries : List (Int64 × String)} {m : EnumeratorMap}
    (sorted : (m.entries ++ entries).Pairwise (fun a b => a.1 < b.1)) :
    (entries.foldl (fun m (value, name) => m.insert value name) m).entries = m.entries ++ entries := by
  induction entries generalizing m with
  | nil => simp
  | cons e entries ih =>
    have last : (m.insert e.1 e.2).entries = m.entries ++ [e] :=
      placeLast (fun x member => (List.pairwise_append.mp sorted).2.2 x member e List.mem_cons_self)
    rw [List.foldl_cons]
    refine (ih ?_).trans ?_
    · rwa [last, List.append_assoc]
    · rw [last, List.append_assoc]
      rfl

theorem listedAscending {entries : List (Int64 × String)}
    (sorted : entries.Pairwise (fun a b => a.1 < b.1)) : (ofListed entries).entries = entries :=
  foldAscending (m := .empty) sorted

theorem listedEntries (m : EnumeratorMap) : ofListed m.entries = m := by
  obtain ⟨entries, ascending⟩ := m
  have same := listedAscending ascending
  generalize ofListed entries = n at same
  cases n
  cases same
  rfl

theorem placeFits {fits : Int64 × String → Prop} {value : Int64} {name : String}
    {xs : List (Int64 × String)} (fit : fits (value, name)) (others : ∀ x ∈ xs, fits x) :
    (∀ x ∈ place (fun _ => name) value name xs, fits x) ∧
      (place (fun _ => name) value name xs).length ≤ xs.length + 1 := by
  induction xs with
  | nil => simpa [place] using fit
  | cons x xs ih =>
    obtain ⟨head, tail⟩ := List.forall_mem_cons.mp others
    obtain ⟨fits, length⟩ := ih tail
    simp only [place]
    split
    · exact ⟨List.forall_mem_cons.mpr ⟨fit, others⟩, Nat.le_refl _⟩
    · split
      · rename_i same
        exact ⟨List.forall_mem_cons.mpr ⟨same ▸ fit, tail⟩, Nat.le_succ _⟩
      · exact ⟨List.forall_mem_cons.mpr ⟨head, fits⟩, Nat.succ_le_succ length⟩

theorem foldFits {fits : Int64 × String → Prop} {entries : List (Int64 × String)}
    {m : EnumeratorMap} (old : ∀ x ∈ m.entries, fits x) (new : ∀ x ∈ entries, fits x) :
    (∀ x ∈ (entries.foldl (fun m (value, name) => m.insert value name) m).entries, fits x) ∧
      (entries.foldl (fun m (value, name) => m.insert value name) m).entries.length ≤
        m.entries.length + entries.length := by
  induction entries generalizing m with
  | nil => exact ⟨old, Nat.le_refl _⟩
  | cons e entries ih =>
    obtain ⟨fit, others⟩ := List.forall_mem_cons.mp new
    obtain ⟨placed, one⟩ := placeFits fit old
    obtain ⟨fits, length⟩ := ih (m := m.insert e.1 e.2) placed others
    have more : (m.insert e.1 e.2).entries.length ≤ m.entries.length + 1 := one
    refine ⟨fits, Nat.le_trans length ?_⟩
    rw [List.length_cons]
    omega

theorem listedFits {entries : List (Int64 × String)}
    (fit : ListFits (fun e => TextFits e.2) entries) : (ofListed entries).Fits := by
  have none : ∀ x ∈ EnumeratorMap.empty.entries, TextFits x.2 := fun _ => nofun
  obtain ⟨fits, length⟩ := foldFits none fit.2
  have bound : (ofListed entries).entries.length ≤ 0 + entries.length := length
  rw [Nat.zero_add] at bound
  exact ⟨Nat.lt_of_le_of_lt bound fit.1, fits⟩

end EnumeratorMap

namespace Codec

variable {α β : Type}

theorem exactSame {c : Codec α} {fits suits : α → Prop} (h : Exact c fits)
    (same : ∀ a, fits a ↔ suits a) : Exact c suits := by
  have equal : fits = suits := funext (fun a => propext (same a))
  exact equal ▸ h

theorem exactNodeId : Exact nodeId NodeId.Fits :=
  exactMap exactWord32 (fun _ => rfl) (fun _ _ => rfl)

theorem exactQualifiers : Exact qualifiers (fun _ => True) :=
  exactMap exactByte (fun _ => rfl) (fun _ _ => rfl)

theorem exactPrimitiveKind : Exact primitiveKind (fun _ => True) :=
  exactOneOf (by decide) (fun kind => by cases kind <;> decide) (by decide)

theorem exactRecordKind : Exact recordKind (fun _ => True) :=
  exactOneOf (by decide) (fun kind => by cases kind <;> decide) (by decide)

theorem exactNodeKind : Exact nodeKind (fun _ => True) :=
  exactOneOf (by decide) (fun kind => by cases kind <;> decide) (by decide)

theorem choiceReturns {c : Codec α} {fits : α → Prop} (h : Exact c fits) {tag : Nat}
    (few : tag < UInt32.size) {a : α} (fit : fits a) (rest : Bytes) {f : Nat → Read β} {b : β}
    (here : ∀ data, c.read data = .ok (a, rest) → f tag data = .ok (b, rest)) :
    (word32.read >>= f) (word32.write tag ++ c.write a ++ rest) = .ok (b, rest) := by
  rw [List.append_assoc, readThen (exactWord32.returns few _)]
  exact here _ (h.returns fit rest)

theorem choiceSpells {c : Codec α} {fits : α → Prop} (h : Exact c fits) {make : α → β}
    {data rest : Bytes} {b : β} (read : (do let a ← c.read; pure (make a)) data = .ok (b, rest)) :
    ∃ a, b = make a ∧ fits a ∧ data = c.write a ++ rest := by
  obtain ⟨a, last, first, done⟩ := readBind.mp read
  obtain ⟨rfl, rfl⟩ := readPure.mp done
  obtain ⟨fit, same⟩ := h.spells first
  exact ⟨a, rfl, fit, same⟩

theorem exactParam : Exact param TemplateParam.Fits := by
  have plain := exactPair exactNodeId exactQualifiers
  have spelled := exactPair exactNodeId exactText
  constructor
  · intro p fit rest
    cases p with
    | type ty q =>
      exact choiceReturns plain (a := (ty, q)) (by decide) ⟨fit, trivial⟩ rest
        (fun _ read => readThen read _)
    | value ty value =>
      exact choiceReturns spelled (a := (ty, value)) (by decide) fit rest
        (fun _ read => readThen read _)
    | template name =>
      exact choiceReturns exactText (by decide) fit rest (fun _ read => readThen read _)
  · intro data p rest read
    obtain ⟨tag, mid, first, next⟩ := readBind.mp read
    have front := (exactWord32.spells first).2
    split at next
    · obtain ⟨⟨ty, q⟩, rfl, fit, back⟩ := choiceSpells plain next
      refine ⟨fit.1, ?_⟩
      simp only [param, List.append_assoc, ← back]
      exact front
    · obtain ⟨⟨ty, value⟩, rfl, fit, back⟩ := choiceSpells spelled next
      refine ⟨fit, ?_⟩
      simp only [param, List.append_assoc, ← back]
      exact front
    · obtain ⟨name, rfl, fit, back⟩ := choiceSpells exactText next
      refine ⟨fit, ?_⟩
      simp only [param, List.append_assoc, ← back]
      exact front
    · contradiction

theorem exactParent : Exact parent (fun p => p.ty.Fits) :=
  exactSame (exactMap (exactPair exactNodeId exactWord64) (fun _ => rfl) (fun _ _ => rfl))
    (fun _ => and_iff_left trivial)

theorem exactMember : Exact member Member.Fits :=
  exactSame (exactMap (exactPair exactText (exactPair exactNodeId (exactPair exactWord64 exactWord64)))
    (fun _ => rfl) (fun _ _ => rfl)) (fun _ => by simp [Member.Fits])

theorem exactFunction : Exact function (fun f => TextFits f.name) :=
  exactSame (exactMap (exactPair exactText exactBool) (fun _ => rfl) (fun _ _ => rfl))
    (fun _ => and_iff_left trivial)

theorem exactRecord : Exact record Record.Fits :=
  exactSame (exactMap (exactPair exactRecordKind (exactPair exactText (exactPair exactText
      (exactPair exactWord64 (exactPair exactWord64 (exactPair exactBool
        (exactPair (exactList exactParam) (exactPair (exactList exactParent)
          (exactPair (exactList exactMember) (exactList exactFunction))))))))))
    (fun _ => rfl) (fun _ _ => rfl)) (fun _ => by simp [Record.Fits])

theorem exactContainer : Exact container Container.Fits :=
  exactSame (exactMap (exactPair exactText (exactPair exactWord64 (exactPair exactWord64
    (exactList exactParam)))) (fun _ => rfl) (fun _ _ => rfl)) (fun _ => by simp [Container.Fits])

theorem exactNamedNode : Exact namedNode NamedNode.Fits :=
  exactMap (exactPair exactText exactNodeId) (fun _ => rfl) (fun _ _ => rfl)

def listing : Codec (List (Int64 × String)) := list (int64.pair text)

theorem exactListing : Exact listing (ListFits (fun e => TextFits e.2)) :=
  exactSame (exactList (exactPair exactInt64 exactText)) (fun _ => by simp [ListFits])

theorem enumeratorsReturn {m : EnumeratorMap} (fit : m.Fits) : enumerators.Returns m :=
  mapReturns (exactListing.returns fit) (EnumeratorMap.listedEntries m)

theorem enumReturns {e : EnumNode} (fit : e.Fits) : enum.Returns e :=
  mapReturns (pairReturns (exactText.returns fit.1)
    (pairReturns (exactWord64.returns trivial) (enumeratorsReturn fit.2))) rfl

theorem payloadReturns {n : Node} (fit : n.Fits) (rest : Bytes) :
    readPayload n.kind (nodePayload n ++ rest) = .ok (n, rest) := by
  cases n with
  | primitive kind => exact readThen (exactPrimitiveKind.returns trivial rest) _
  | record r => exact readThen (exactRecord.returns fit rest) _
  | container c => exact readThen (exactContainer.returns fit rest) _
  | enum e => exact readThen (enumReturns fit rest) _
  | array element length =>
    exact readThen ((exactPair exactNodeId exactWord64).returns (a := (element, length))
      ⟨fit, trivial⟩ rest) _
  | typedef name underlying =>
    exact readThen ((exactPair exactText exactNodeId).returns (a := (name, underlying)) fit rest) _
  | pointer pointee => exact readThen (exactNodeId.returns fit rest) _
  | reference pointee => exact readThen (exactNodeId.returns fit rest) _
  | incomplete label => exact readThen (exactText.returns fit rest) _
  | dummy size align =>
    exact readThen ((exactPair exactWord64 exactWord64).returns (a := (size, align))
      ⟨trivial, trivial⟩ rest) _
  | allocator target size align =>
    exact readThen ((exactPair exactNodeId (exactPair exactWord64 exactWord64)).returns
      (a := (target, size, align)) ⟨fit, trivial, trivial⟩ rest) _

theorem nodeReturns {n : Node} (fit : n.Fits) : node.Returns n := by
  intro rest
  simp only [node, List.append_assoc]
  exact (readThen (exactNodeKind.returns trivial _) _).trans (payloadReturns fit rest)

theorem plainSpells {kind : NodeKind} (plain : kind ≠ .enum) {data rest : Bytes} {n : Node}
    (read : readPayload kind data = .ok (n, rest)) :
    n.kind = kind ∧ n.Fits ∧ data = nodePayload n ++ rest := by
  cases kind with
  | enum => contradiction
  | primitive =>
    obtain ⟨kind, rfl, fit, same⟩ := choiceSpells exactPrimitiveKind read
    exact ⟨rfl, fit, same⟩
  | record =>
    obtain ⟨r, rfl, fit, same⟩ := choiceSpells exactRecord read
    exact ⟨rfl, fit, same⟩
  | container =>
    obtain ⟨c, rfl, fit, same⟩ := choiceSpells exactContainer read
    exact ⟨rfl, fit, same⟩
  | array =>
    obtain ⟨⟨element, length⟩, rfl, fit, same⟩ := choiceSpells (exactPair exactNodeId exactWord64) read
    exact ⟨rfl, fit.1, same⟩
  | typedef =>
    obtain ⟨⟨name, underlying⟩, rfl, fit, same⟩ := choiceSpells (exactPair exactText exactNodeId) read
    exact ⟨rfl, fit, same⟩
  | pointer | reference =>
    obtain ⟨pointee, rfl, fit, same⟩ := choiceSpells exactNodeId read
    exact ⟨rfl, fit, same⟩
  | incomplete =>
    obtain ⟨label, rfl, fit, same⟩ := choiceSpells exactText read
    exact ⟨rfl, fit, same⟩
  | dummy =>
    obtain ⟨⟨size, align⟩, rfl, fit, same⟩ := choiceSpells (exactPair exactWord64 exactWord64) read
    exact ⟨rfl, trivial, same⟩
  | allocator =>
    obtain ⟨⟨target, size, align⟩, rfl, fit, same⟩ :=
      choiceSpells (exactPair exactNodeId (exactPair exactWord64 exactWord64)) read
    exact ⟨rfl, fit.1, same⟩

theorem exactSlots : Exact (vector (option nodeId) Primitive.count)
    (fun slots => ∀ slot ∈ slots, ∀ id ∈ slot, id.Fits) :=
  exactVector (exactOption exactNodeId) _

theorem graphReturns {g : Graph} (fit : g.Fits) : graph.Returns g :=
  mapReturns (pairReturns (listReturns fit.1.1 (fun n member => nodeReturns (fit.1.2 n member)))
    (pairReturns ((exactList exactNodeId).returns fit.2.1) (exactSlots.returns fit.2.2))) rfl

theorem archiveReturns {a : Archive} (fit : a.Fits) : archive.Returns a :=
  mapReturns (pairReturns ((exactList exactNamedNode).returns fit.1) (graphReturns fit.2)) rfl

end Codec
end ObjectLayout
