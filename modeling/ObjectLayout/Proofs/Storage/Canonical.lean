import ObjectLayout.Proofs.Storage.Recall

/-! What is loaded is closed under its handles and is loaded again as it was from what is then
stored. Stored data has one spelling but for the order of the names of an enum: where all of them
come in ascending order, storing what was loaded gives the same bytes. -/
namespace ObjectLayout

abbrev EnumeratorList := List (Int64 × String)

def Ascending (listed : List EnumeratorList) : Prop :=
  ∀ names ∈ listed, names.Pairwise (fun a b => a.1 < b.1)

instance : DecidablePred Ascending := fun _ => inferInstanceAs (Decidable (∀ _ ∈ _, _))

theorem ascendingAppend {xs ys : List EnumeratorList} :
    Ascending (xs ++ ys) ↔ Ascending xs ∧ Ascending ys := List.forall_mem_append

def Node.enumerators : Node → List EnumeratorMap
  | .enum e => [e.enumerators]
  | _ => []

theorem Node.enumeratorsPlain {n : Node} (plain : n.kind ≠ .enum) : n.enumerators = [] := by
  cases n with
  | enum => contradiction
  | _ => rfl

namespace Codec

variable {α β : Type}

abbrev Lists := Read (List EnumeratorList)

def noLists (c : Codec α) : Lists := do
  let _ ← c.read
  pure []

def bothLists (x y : Lists) : Lists := do
  let front ← x
  let back ← y
  pure (front ++ back)

def listsTimes (x : Lists) : Nat → Lists
  | 0 => pure []
  | n + 1 => bothLists x (listsTimes x n)

def eachLists (x : Lists) : Lists := do
  let n ← readNat 8
  listsTimes x n

def enumeratorLists : Lists := do
  let names ← listing.read
  pure [names]

def enumLists : Lists := bothLists (noLists text) (bothLists (noLists word64) enumeratorLists)

def payloadLists : NodeKind → Lists
  | .enum => enumLists
  | kind => do
      let _ ← readPayload kind
      pure []

def nodeLists : Lists := do
  let kind ← nodeKind.read
  payloadLists kind

def graphLists : Lists :=
  bothLists (eachLists nodeLists)
    (bothLists (noLists (list nodeId)) (noLists (vector (option nodeId) Primitive.count)))

def archiveLists : Lists := bothLists (noLists (list namedNode)) graphLists

/- Whatever is read fits, its maps are those of the lists in the bytes, and it is written back as
it was read if these ascend. -/
structure Canonical (c : Codec α) (lists : Lists) (maps : α → List EnumeratorMap)
    (fits : α → Prop) : Prop where
  spells : ∀ {data a rest}, c.read data = .ok (a, rest) → fits a ∧ ∃ listed,
    lists data = .ok (listed, rest) ∧ maps a = listed.map .ofListed ∧
      (Ascending listed → data = c.write a ++ rest)

theorem exactCanonical {c : Codec α} {fits : α → Prop} (h : Exact c fits) :
    Canonical c (noLists c) (fun _ => []) fits := by
  constructor
  intro data a rest read
  obtain ⟨fit, same⟩ := h.spells read
  exact ⟨fit, [], readThen read _, rfl, fun _ => same⟩

theorem mapCanonical {c : Codec α} {lists : Lists} {maps : α → List EnumeratorMap}
    {fits : α → Prop} (h : Canonical c lists maps fits) {make : α → β} {parts : β → α}
    {suits : β → Prop} {theirs : β → List EnumeratorMap} (splits : ∀ a, parts (make a) = a)
    (suit : ∀ a, fits a → suits (make a)) (same : ∀ a, theirs (make a) = maps a) :
    Canonical (c.map make parts) lists theirs suits := by
  constructor
  intro data b rest read
  obtain ⟨a, mid, first, last⟩ := readBind.mp read
  obtain ⟨rfl, rfl⟩ := readPure.mp last
  obtain ⟨fit, listed, found, held, spelled⟩ := h.spells first
  refine ⟨suit a fit, listed, found, (same a).trans held, fun ascending => ?_⟩
  simp only [map, splits]
  exact spelled ascending

theorem pairCanonical {c : Codec α} {d : Codec β} {xs ys : Lists} {maps : α → List EnumeratorMap}
    {theirs : β → List EnumeratorMap} {fits : α → Prop} {suits : β → Prop}
    (h : Canonical c xs maps fits) (k : Canonical d ys theirs suits) :
    Canonical (c.pair d) (bothLists xs ys) (fun p => maps p.1 ++ theirs p.2)
      (fun p => fits p.1 ∧ suits p.2) := by
  constructor
  rintro data ⟨a, b⟩ rest read
  obtain ⟨a', mid, first, next⟩ := readBind.mp read
  obtain ⟨b', last, second, done⟩ := readBind.mp next
  obtain ⟨same, rfl⟩ := readPure.mp done
  cases same
  obtain ⟨fit, front, found, held, spelled⟩ := h.spells first
  obtain ⟨suit, back, founds, helds, spells⟩ := k.spells second
  refine ⟨⟨fit, suit⟩, front ++ back, ?_, ?_, ?_⟩
  · exact (readThen found _).trans (readThen founds _)
  · simp only [List.map_append, held, helds]
  · intro ascending
    obtain ⟨earlier, later⟩ := ascendingAppend.mp ascending
    simp only [pair, List.append_assoc, ← spells later]
    exact spelled earlier

theorem timesCanonical {c : Codec α} {lists : Lists} {maps : α → List EnumeratorMap}
    {fits : α → Prop} (h : Canonical c lists maps fits) {n : Nat} {data rest : Bytes} {xs : List α}
    (read : readTimes c n data = .ok (xs, rest)) :
    xs.length = n ∧ (∀ a ∈ xs, fits a) ∧ ∃ listed, listsTimes lists n data = .ok (listed, rest) ∧
      xs.flatMap maps = listed.map .ofListed ∧
      (Ascending listed → data = xs.flatMap c.write ++ rest) := by
  induction n generalizing data xs with
  | zero =>
    obtain ⟨rfl, rfl⟩ := readPure.mp read
    exact ⟨rfl, by simp, [], rfl, rfl, fun _ => rfl⟩
  | succ n ih =>
    obtain ⟨a, mid, first, next⟩ := readBind.mp read
    obtain ⟨others, last, second, done⟩ := readBind.mp next
    obtain ⟨rfl, rfl⟩ := readPure.mp done
    obtain ⟨fit, front, found, held, spelled⟩ := h.spells first
    obtain ⟨length, fits, back, founds, helds, spells⟩ := ih second
    refine ⟨by rw [List.length_cons, length], List.forall_mem_cons.mpr ⟨fit, fits⟩, front ++ back,
      (readThen found _).trans (readThen founds _), ?_, ?_⟩
    · simp only [List.flatMap_cons, List.map_append, held, helds]
    · intro ascending
      obtain ⟨earlier, later⟩ := ascendingAppend.mp ascending
      simp only [List.flatMap_cons, List.append_assoc, ← spells later]
      exact spelled earlier

theorem listCanonical {c : Codec α} {lists : Lists} {maps : α → List EnumeratorMap}
    {fits : α → Prop} (h : Canonical c lists maps fits) :
    Canonical (list c) (eachLists lists) (fun xs => xs.flatMap maps) (ListFits fits) := by
  constructor
  intro data xs rest read
  obtain ⟨n, mid, first, second⟩ := readBind.mp read
  obtain ⟨bound, front⟩ := (exactNat 8).spells first
  obtain ⟨rfl, fits, listed, found, held, spelled⟩ := timesCanonical h second
  refine ⟨⟨bound, fits⟩, listed, (readThen first _).trans found, held, fun ascending => ?_⟩
  simp only [list, List.append_assoc, ← spelled ascending]
  exact front

theorem enumeratorsCanonical :
    Canonical enumerators enumeratorLists (fun m => [m]) EnumeratorMap.Fits := by
  constructor
  intro data m rest read
  obtain ⟨names, mid, first, last⟩ := readBind.mp read
  obtain ⟨rfl, rfl⟩ := readPure.mp last
  obtain ⟨fit, same⟩ := exactListing.spells first
  refine ⟨EnumeratorMap.listedFits fit, [names], readThen first _, rfl, fun ascending => ?_⟩
  have kept := EnumeratorMap.listedAscending (ascending names (List.mem_singleton_self names))
  have written : enumerators.write (.ofListed names) = listing.write names :=
    congrArg listing.write kept
  exact same.trans (congrArg (· ++ rest) written.symm)

theorem enumCanonical : Canonical enum enumLists (fun e => [e.enumerators]) EnumNode.Fits :=
  mapCanonical (pairCanonical (exactCanonical exactText)
    (pairCanonical (exactCanonical exactWord64) enumeratorsCanonical)) (fun _ => rfl)
    (fun _ fit => ⟨fit.1, fit.2.2⟩) (fun _ => rfl)

theorem payloadCanonical {kind : NodeKind} {data rest : Bytes} {n : Node}
    (read : readPayload kind data = .ok (n, rest)) :
    n.kind = kind ∧ n.Fits ∧ ∃ listed, payloadLists kind data = .ok (listed, rest) ∧
      n.enumerators = listed.map .ofListed ∧ (Ascending listed → data = nodePayload n ++ rest) := by
  by_cases plain : kind = .enum
  · subst plain
    obtain ⟨e, mid, first, last⟩ := readBind.mp read
    obtain ⟨rfl, rfl⟩ := readPure.mp last
    exact ⟨rfl, enumCanonical.spells first⟩
  · obtain ⟨same, fit, spelled⟩ := plainSpells plain read
    refine ⟨same, fit, [], ?_, Node.enumeratorsPlain (same ▸ plain), fun _ => spelled⟩
    cases kind with
    | enum => contradiction
    | _ => exact readThen read _

theorem nodeCanonical : Canonical node nodeLists Node.enumerators Node.Fits := by
  constructor
  intro data n rest read
  obtain ⟨kind, mid, first, second⟩ := readBind.mp read
  obtain ⟨rfl, fit, listed, found, held, spelled⟩ := payloadCanonical second
  refine ⟨fit, listed, (readThen first _).trans found, held, fun ascending => ?_⟩
  simp only [node, List.append_assoc, ← spelled ascending]
  exact (exactNodeKind.spells first).2

theorem graphCanonical :
    Canonical graph graphLists (fun g => g.nodes.toList.flatMap Node.enumerators) Graph.Fits :=
  mapCanonical (pairCanonical (listCanonical nodeCanonical)
    (pairCanonical (exactCanonical (exactList exactNodeId)) (exactCanonical exactSlots)))
    (fun _ => rfl) (fun _ fit => fit) (fun _ => by simp)

theorem archiveCanonical :
    Canonical archive archiveLists (fun a => a.graph.nodes.toList.flatMap Node.enumerators)
      Archive.Fits :=
  mapCanonical (pairCanonical (exactCanonical (exactList exactNamedNode)) graphCanonical)
    (fun _ => rfl) (fun _ fit => fit) (fun _ => rfl)

end Codec

namespace Archive

open Codec

theorem loadRead {data : Bytes} {a : Archive} (loaded : load data = .ok a) :
    ∃ body rest, word32.read data = .ok (formatVersion, body) ∧
      archive.read body = .ok (a, rest) ∧ a.firstDangling = none := by
  unfold load at loaded
  split at loaded
  · contradiction
  · rename_i found body version
    split at loaded
    · contradiction
    · rename_i current
      obtain rfl := Decidable.not_not.mp current
      split at loaded
      · contradiction
      · rename_i b rest read
        split at loaded
        · contradiction
        · rename_i none
          cases loaded
          exact ⟨body, rest, version, read, none⟩

theorem loadedCanonical {data : Bytes} {a : Archive} (loaded : load data = .ok a) :
    (∀ root ∈ a.roots, root.node.raw < a.graph.nodes.size) ∧ a.graph.Closed ∧
      load a.store = .ok a ∧
      ∃ body rest listed, word32.read data = .ok (formatVersion, body) ∧
        archive.read body = .ok (a, rest) ∧ archiveLists body = .ok (listed, rest) ∧
        a.graph.nodes.toList.flatMap Node.enumerators = listed.map .ofListed ∧
        (Ascending listed → data = a.store ++ rest) := by
  obtain ⟨body, rest, version, read, none⟩ := loadRead loaded
  obtain ⟨fit, listed, found, held, spelled⟩ := archiveCanonical.spells read
  refine ⟨?_, closedGraph none, ?_, body, rest, listed, version, read, found, held, ?_⟩
  · exact fun root member => inRange none (namedHandle member)
  · have again := (loadStored fit []).1 none
    rwa [List.append_nil] at again
  · intro ascending
    simp only [store, List.append_assoc, ← spelled ascending]
    exact (exactWord32.spells version).2

theorem sampleCanonical :
    load (sampleArchive.store ++ [7]) = .ok sampleArchive ∧ sampleArchive.graph.Closed ∧
      load sampleArchive.store = .ok sampleArchive ∧
      ∃ body rest listed, word32.read (sampleArchive.store ++ [7]) = .ok (formatVersion, body) ∧
        archive.read body = .ok (sampleArchive, rest) ∧
        archiveLists body = .ok (listed, rest) ∧
        sampleArchive.graph.nodes.toList.flatMap Node.enumerators = listed.map .ofListed ∧
        (Ascending listed → sampleArchive.store ++ [7] = sampleArchive.store ++ rest) := by
  have loaded : load (sampleArchive.store ++ [7]) = .ok sampleArchive :=
    (loadStored sampleFits [7]).1 (by decide)
  exact ⟨loaded, (loadedCanonical loaded).2⟩

/- An enum whose names come out of order: `a` for 1, then `b` for 0. -/
def shuffledData : Bytes :=
  [1, 0, 0, 0] ++ [0, 0, 0, 0, 0, 0, 0, 0] ++ [1, 0, 0, 0, 0, 0, 0, 0] ++ [3, 0, 0, 0] ++
    [0, 0, 0, 0, 0, 0, 0, 0] ++ [4, 0, 0, 0, 0, 0, 0, 0] ++ [2, 0, 0, 0, 0, 0, 0, 0] ++
    [1, 0, 0, 0, 0, 0, 0, 0] ++ [1, 0, 0, 0, 0, 0, 0, 0, 97] ++
    [0, 0, 0, 0, 0, 0, 0, 0] ++ [1, 0, 0, 0, 0, 0, 0, 0, 98] ++
    [0, 0, 0, 0, 0, 0, 0, 0] ++ List.replicate Primitive.count 0

example : archiveLists (shuffledData.drop 4) = .ok ([[(1, "a"), (0, "b")]], []) := rfl

example : ∃ a, load shuffledData = .ok a ∧ a.store ≠ shuffledData :=
  ⟨⟨[], #[.enum ⟨"", 4, .ofListed [(0, "b"), (1, "a")]⟩], [], Graph.empty.slots⟩, rfl, by decide +kernel⟩

end Archive
end ObjectLayout
