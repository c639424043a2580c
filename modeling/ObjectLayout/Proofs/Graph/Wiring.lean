import Mathlib.Data.List.Nodup
import ObjectLayout.Proofs.Graph.Drawing
import ObjectLayout.Proofs.Graph.Listing
import ObjectLayout.Proofs.Graph.Ownership

/-! How the vertices of a diagram hang together. Each name is declared once, every edge joins two names
that are declared, and a part of a node hangs on its node by one edge and on its type by another, however
much of the graph is drawn between them. -/
namespace ObjectLayout.Diagram

structure Part where
  vertex : Vertex
  label : String
  ty : Option NodeId

def family {β : Type} (part : β → Nat → Part) (xs : List β) : List Part :=
  xs.zipIdx.map (fun (x, index) => part x index)

def paramPart (owner : NodeId) (p : TemplateParam) (index : Nat) : Part :=
  ⟨.param owner index, paramLabel p, drawn? p⟩

def parentPart (owner : NodeId) (p : Parent) (index : Nat) : Part :=
  ⟨.parent owner index, p.title, some p.ty⟩

def memberPart (owner : NodeId) (m : Member) (index : Nat) : Part :=
  ⟨.member owner index, m.title, some m.ty⟩

def functionPart (owner : NodeId) (f : Function) (index : Nat) : Part :=
  ⟨.function owner index, f.title, none⟩

def parts (owner : NodeId) : Node → List Part
  | .record r =>
      family (paramPart owner) r.params ++ family (parentPart owner) r.parents ++
        family (memberPart owner) r.members ++ family (functionPart owner) r.functions
  | .container c => family (paramPart owner) c.params
  | _ => []

def Part.lines (owner : NodeId) (part : Part) : List Statement :=
  [.edge (.node owner) part.vertex, .vertex part.vertex part.label] ++
    part.ty.toList.map (fun ty => .edge part.vertex (.node ty))

def inner : Node → List NodeId
  | .record _ | .container _ => []
  | n => n.children

def own (id : NodeId) (n : Node) : List Statement :=
  .vertex (.node id) n.title ::
    ((parts id n).flatMap (Part.lines id) ++ (inner n).map (fun c => .edge (.node id) (.node c)))

theorem familyLines {β : Type} {owner : NodeId} (items : β → Nat → List (Item Statement))
    (part : β → Nat → Part) (each : ∀ x index, Item.lines (items x index) = (part x index).lines owner)
    (xs : List β) :
    Item.lines (indexed items xs) = (family part xs).flatMap (Part.lines owner) := by
  rw [indexed, Item.lines, List.filterMap_flatMap, family, List.flatMap_map]
  exact congrArg (xs.zipIdx.flatMap ·) (funext fun x => each x.1 x.2)

theorem paramLines (owner : NodeId) (ps : List TemplateParam) :
    Item.lines (indexed (paramItems owner) ps) =
      (family (paramPart owner) ps).flatMap (Part.lines owner) :=
  familyLines (paramItems owner) (paramPart owner) (fun p _ => by cases p <;> rfl) ps

theorem lists : style.Lists own where
  first := by
    intro level number id n
    refine ⟨_, rfl, congrArg (Statement.vertex (.node id) n.title :: ·) ?_⟩
    change Item.lines (partsOf id n) = _
    cases n with
    | record r =>
      have parents := familyLines (parentItems id) (parentPart id) (fun _ _ => rfl) r.parents
      have members := familyLines (memberItems id) (memberPart id) (fun _ _ => rfl) r.members
      have functions := familyLines (functionItems id) (functionPart id) (fun _ _ => rfl) r.functions
      simp only [partsOf, parts, inner, Item.linesAppend, paramLines, parents, members, functions,
        List.flatMap_append, List.map_nil, List.append_nil]
    | container c => exact (paramLines id c.params).trans (List.append_nil _).symm
    | _ => rfl
  again := fun _ _ _ => rfl

theorem familyVertices {β : Type} (part : β → Nat → Part) (place : Nat → Vertex)
    (each : ∀ x index, (part x index).vertex = place index) (xs : List β) :
    (family part xs).map Part.vertex = (List.range xs.length).map place := by
  rw [family, List.map_map, List.range_eq_range', ← List.zipIdx_map_snd, List.map_map]
  exact congrArg (xs.zipIdx.map ·) (funext fun x => each x.1 x.2)

theorem placesDistinct (place : Nat → Vertex) (apart : Function.Injective place) (n : Nat) :
    ((List.range n).map place).Nodup := List.nodup_range.map apart

theorem partsDistinct (id : NodeId) (n : Node) : ((parts id n).map Part.vertex).Nodup := by
  have params := familyVertices (paramPart id) (.param id) (fun _ _ => rfl)
  have first := placesDistinct (.param id) (fun _ _ same => (Vertex.param.inj same).2)
  cases n with
  | record r =>
    have parents := familyVertices (parentPart id) (.parent id) (fun _ _ => rfl)
    have members := familyVertices (memberPart id) (.member id) (fun _ _ => rfl)
    have functions := familyVertices (functionPart id) (.function id) (fun _ _ => rfl)
    have second := placesDistinct (.parent id) (fun _ _ same => (Vertex.parent.inj same).2)
    have third := placesDistinct (.member id) (fun _ _ same => (Vertex.member.inj same).2)
    have fourth := placesDistinct (.function id) (fun _ _ same => (Vertex.function.inj same).2)
    simp only [parts, List.map_append, params, parents, members, functions, List.nodup_append,
      first, second, third, fourth, List.mem_append, List.mem_map]
    grind
  | container c =>
    rw [parts, params]
    exact first _
  | _ => exact List.nodup_nil

inductive IsPart (id : NodeId) (n : Node) : Part → Prop
  | param {p index} (member : p ∈ arguments n) : IsPart id n (paramPart id p index)
  | parent {r p index} (same : n = .record r) (member : p ∈ r.parents) :
      IsPart id n (parentPart id p index)
  | member {r m index} (same : n = .record r) (member : m ∈ r.members) :
      IsPart id n (memberPart id m index)
  | function {r f index} (same : n = .record r) (member : f ∈ r.functions) :
      IsPart id n (functionPart id f index)

theorem familyMember {β : Type} {part : β → Nat → Part} {xs : List β} {made : Part}
    (member : made ∈ family part xs) : ∃ x ∈ xs, ∃ index, part x index = made := by
  obtain ⟨⟨x, index⟩, inside, same⟩ := List.mem_map.mp member
  exact ⟨x, (List.mem_zipIdx_iff_getElem?.mp inside) |> List.mem_of_getElem?, index, same⟩

theorem partCases {id : NodeId} {n : Node} {part : Part} (member : part ∈ parts id n) :
    IsPart id n part := by
  cases n with
  | record r =>
    simp only [parts, List.mem_append] at member
    rcases member with ((params | parents) | members) | functions
    · obtain ⟨p, inside, index, rfl⟩ := familyMember params
      exact .param inside
    · obtain ⟨p, inside, index, rfl⟩ := familyMember parents
      exact .parent rfl inside
    · obtain ⟨m, inside, index, rfl⟩ := familyMember members
      exact .member rfl inside
    · obtain ⟨f, inside, index, rfl⟩ := familyMember functions
      exact .function rfl inside
  | container c =>
    obtain ⟨p, inside, index, rfl⟩ := familyMember member
    exact .param inside
  | _ => contradiction

theorem partOwner {id : NodeId} {n : Node} {part : Part} (member : part ∈ parts id n) :
    part.vertex.owner = id := by
  cases partCases member <;> rfl

theorem partApart {id : NodeId} {n : Node} {part : Part} (member : part ∈ parts id n)
    (other : NodeId) : part.vertex ≠ .node other := by
  cases partCases member <;> simp [paramPart, parentPart, memberPart, functionPart]

theorem partDrawn {id ty : NodeId} {n : Node} {part : Part} (member : part ∈ parts id n)
    (leads : part.ty = some ty) : ty ∈ drawn n := by
  cases partCases member with
  | @param p index inside =>
    have shown : ty ∈ (arguments n).filterMap drawn? := List.mem_filterMap.mpr ⟨p, inside, leads⟩
    cases n with
    | record r => exact List.mem_append_left _ (List.mem_append_left _ shown)
    | container c => exact shown
    | _ => contradiction
  | parent same inside =>
    cases same
    cases leads
    exact List.mem_append_left _ (List.mem_append_right _ (List.mem_map_of_mem inside))
  | member same inside =>
    cases same
    cases leads
    exact List.mem_append_right _ (List.mem_map_of_mem inside)
  | function same inside => contradiction

theorem innerDrawn {n : Node} {c : NodeId} (member : c ∈ inner n) : c ∈ drawn n := by
  cases n with
  | record | container => contradiction
  | _ => exact member

inductive Stated (id : NodeId) (n : Node) : Statement → Prop
  | node : Stated id n (.vertex (.node id) n.title)
  | part {p} (member : p ∈ parts id n) : Stated id n (.vertex p.vertex p.label)
  | enters {p} (member : p ∈ parts id n) : Stated id n (.edge (.node id) p.vertex)
  | leaves {p ty} (member : p ∈ parts id n) (leads : p.ty = some ty) :
      Stated id n (.edge p.vertex (.node ty))
  | inner {c} (member : c ∈ inner n) : Stated id n (.edge (.node id) (.node c))

theorem ownStated {id : NodeId} {n : Node} {line : Statement} (inside : line ∈ own id n) :
    Stated id n line := by
  simp only [own, List.mem_cons, List.mem_append, List.mem_flatMap, List.mem_map] at inside
  rcases inside with rfl | ⟨p, member, among⟩ | ⟨c, member, rfl⟩
  · exact .node
  · simp only [Part.lines, List.mem_append, List.mem_cons, List.not_mem_nil, or_false, List.mem_map,
      Option.mem_toList] at among
    rcases among with (rfl | rfl) | ⟨ty, leads, rfl⟩
    · exact .enters member
    · exact .part member
    · exact .leaves member leads
  · exact .inner member

def Statement.vertex? : Statement → Option Vertex
  | .vertex v _ => some v
  | .edge _ _ => none

theorem ownVertices (id : NodeId) (n : Node) :
    (own id n).filterMap Statement.vertex? = .node id :: (parts id n).map Part.vertex := by
  have links : ((inner n).map (fun c => Statement.edge (.node id) (.node c))).filterMap
      Statement.vertex? = [] := by
    rw [List.filterMap_map]
    exact List.filterMap_none _
  have part : ∀ p : Part, (p.lines id).filterMap Statement.vertex? = [p.vertex] := by
    rintro ⟨vertex, label, ty⟩
    cases ty <;> rfl
  rw [own, List.filterMap_cons, List.filterMap_append, links, List.append_nil,
    List.filterMap_flatMap]
  simp only [Statement.vertex?, part, List.map_eq_flatMap]

theorem ownDistinct (id : NodeId) (n : Node) : ((own id n).filterMap Statement.vertex?).Nodup := by
  rw [ownVertices]
  refine List.nodup_cons.mpr ⟨fun member => ?_, partsDistinct id n⟩
  obtain ⟨p, inside, same⟩ := List.mem_map.mp member
  exact partApart inside id same

theorem ownOwner {id : NodeId} {n : Node} {v : Vertex}
    (declared : v ∈ (own id n).filterMap Statement.vertex?) : v.owner = id := by
  rw [ownVertices] at declared
  rcases List.mem_cons.mp declared with rfl | part
  · rfl
  · obtain ⟨p, inside, rfl⟩ := List.mem_map.mp part
    exact partOwner inside

theorem ownEdges {id : NodeId} {n : Node} {source target : Vertex}
    (inside : .edge source target ∈ own id n) :
    source ∈ (own id n).filterMap Statement.vertex? ∧
      (target ∈ (own id n).filterMap Statement.vertex? ∨ ∃ c ∈ drawn n, target = .node c) := by
  rw [ownVertices]
  cases ownStated inside with
  | enters member =>
    exact ⟨List.mem_cons_self, .inl (List.mem_cons_of_mem _ (List.mem_map_of_mem member))⟩
  | leaves member leads =>
    exact ⟨List.mem_cons_of_mem _ (List.mem_map_of_mem member), .inr ⟨_, partDrawn member leads, rfl⟩⟩
  | inner member => exact ⟨List.mem_cons_self, .inr ⟨_, innerDrawn member, rfl⟩⟩

def Statement.touches (v : Vertex) : Statement → Bool
  | .vertex w _ => w = v
  | .edge source target => source = v || target = v

theorem touchesEdge {source target v : Vertex} :
    (Statement.edge source target).touches v = true ↔ source = v ∨ target = v := by
  simp [Statement.touches]

theorem touchedPart {id : NodeId} {n : Node} {line : Statement} (inside : line ∈ own id n)
    {v : Vertex} (touched : line.touches v = true) :
    (∃ c, v = .node c) ∨ v ∈ (parts id n).map Part.vertex := by
  cases ownStated inside with
  | node => exact .inl ⟨id, (of_decide_eq_true touched).symm⟩
  | part member => exact .inr (of_decide_eq_true touched ▸ List.mem_map_of_mem member)
  | enters member =>
    rcases touchesEdge.mp touched with rfl | rfl
    · exact .inl ⟨id, rfl⟩
    · exact .inr (List.mem_map_of_mem member)
  | leaves member leads =>
    rcases touchesEdge.mp touched with rfl | rfl
    · exact .inr (List.mem_map_of_mem member)
    · exact .inl ⟨_, rfl⟩
  | inner member => rcases touchesEdge.mp touched with rfl | rfl <;> exact .inl ⟨_, rfl⟩

theorem flatMapOnce {β κ γ : Type} {key : β → κ} {f : β → List γ} {xs : List β}
    (distinct : (xs.map key).Nodup) {x : β} (member : x ∈ xs)
    (others : ∀ y ∈ xs, key y ≠ key x → f y = []) : xs.flatMap f = f x := by
  induction xs with
  | nil => contradiction
  | cons y rest ih =>
    obtain ⟨fresh, distinct⟩ := List.nodup_cons.mp distinct
    rw [List.flatMap_cons]
    rcases List.mem_cons.mp member with rfl | later
    · have none : rest.flatMap f = [] := List.flatMap_eq_nil_iff.mpr (fun z inside =>
        others z (List.mem_cons_of_mem _ inside) (fun same => fresh (same ▸ List.mem_map_of_mem inside)))
      rw [none, List.append_nil]
    · have apart : key y ≠ key x := fun same => fresh (same ▸ List.mem_map_of_mem later)
      rw [others y List.mem_cons_self apart, List.nil_append]
      exact ih distinct later (fun z inside => others z (List.mem_cons_of_mem _ inside))

theorem partTouched {id : NodeId} {part : Part} {v : Vertex} (apart : ∀ c, v ≠ .node c) :
    (part.lines id).filter (Statement.touches v) = if part.vertex = v then part.lines id else [] := by
  have node : ∀ c, Vertex.node c ≠ v := fun c same => apart c same.symm
  obtain ⟨vertex, label, ty⟩ := part
  by_cases same : vertex = v
  · cases ty <;> simp [Part.lines, Statement.touches, same]
  · cases ty <;> simp [Part.lines, Statement.touches, same, node]

theorem ownTouched {id : NodeId} {n : Node} {part : Part} (member : part ∈ parts id n) :
    (own id n).filter (Statement.touches part.vertex) = part.lines id := by
  have apart := partApart member
  have node : ∀ c, Vertex.node c ≠ part.vertex := fun c same => apart c same.symm
  have links : ((inner n).map (fun c => Statement.edge (.node id) (.node c))).filter
      (Statement.touches part.vertex) = [] := by
    simp [List.filter_eq_nil_iff, Statement.touches, node]
  have once := flatMapOnce (partsDistinct id n) member
    (f := fun other => (other.lines id).filter (Statement.touches part.vertex))
    (fun other _ differs => (partTouched apart).trans (if_neg differs))
  rw [own, List.filter_cons_of_neg (by simp [Statement.touches, node]), List.filter_append, links,
    List.append_nil, List.filter_flatMap, once, partTouched apart, if_pos rfl]

structure Shows (seen : List (NodeId × Node)) (lines : List Statement) : Prop where
  distinct : (seen.map Prod.fst).Nodup
  same : lines.Perm (seen.flatMap (fun v => own v.1 v.2))

variable {seen : List (NodeId × Node)} {lines : List Statement}

theorem showsVertices (shows : Shows seen lines) :
    (lines.filterMap Statement.vertex?).Perm
      (seen.flatMap (fun v => (own v.1 v.2).filterMap Statement.vertex?)) := by
  have mapped := shows.same.filterMap Statement.vertex?
  rwa [List.filterMap_flatMap] at mapped

theorem verticesDistinct (shows : Shows seen lines) : (lines.filterMap Statement.vertex?).Nodup := by
  refine (showsVertices shows).nodup_iff.mpr (List.nodup_flatMap.mpr ⟨?_, ?_⟩)
  · exact fun v _ => ownDistinct v.1 v.2
  · refine (List.pairwise_map.mp shows.distinct).imp (fun apart v first second => ?_)
    exact apart ((ownOwner first).symm.trans (ownOwner second))

theorem countNames (lines : List Statement) (name : String) :
    lines.countP (Statement.declares name) =
      ((lines.filterMap Statement.vertex?).map Vertex.name).count name := by
  rw [List.map_filterMap, List.count_filterMap]
  refine List.countP_congr (fun line _ => ?_)
  cases line <;> simp [Statement.declares, Statement.vertex?]

theorem declaredOnce (shows : Shows seen lines) (name : String) :
    lines.countP (Statement.declares name) =
      if name ∈ (lines.filterMap Statement.vertex?).map Vertex.name then 1 else 0 := by
  rw [countNames, ((verticesDistinct shows).map nameInjective).count]

theorem declaredVertex (shows : Shows seen lines) {v : Vertex} :
    lines.countP (Statement.declares v.name) = 1 ↔
      ∃ w ∈ seen, v ∈ (own w.1 w.2).filterMap Statement.vertex? := by
  rw [declaredOnce shows, ite_eq_left_iff, List.mem_map_of_injective nameInjective,
    (showsVertices shows).mem_iff, List.mem_flatMap]
  simp

theorem touchedOnce (shows : Shows seen lines) {id : NodeId} {n : Node} (shown : (id, n) ∈ seen)
    {part : Part} (member : part ∈ parts id n) :
    (lines.filter (Statement.touches part.vertex)).Perm (part.lines id) := by
  have others : ∀ v ∈ seen, v.1 ≠ id → (own v.1 v.2).filter (Statement.touches part.vertex) = [] := by
    intro v _ apart
    refine List.filter_eq_nil_iff.mpr (fun line inside touched => ?_)
    rcases touchedPart inside touched with ⟨c, node⟩ | other
    · exact partApart member c node
    · obtain ⟨p, among, same⟩ := List.mem_map.mp other
      exact apart ((partOwner among).symm.trans ((congrArg Vertex.owner same).trans (partOwner member)))
  have once := flatMapOnce shows.distinct shown
    (f := fun v => (own v.1 v.2).filter (Statement.touches part.vertex)) others
  have filtered := shows.same.filter (Statement.touches part.vertex)
  rwa [List.filter_flatMap, once, ownTouched member] at filtered

def Statement.enters (name : String) : Statement → Bool
  | .edge _ target => target.name = name
  | .vertex _ _ => false

def Statement.leaves (name : String) : Statement → Bool
  | .edge source _ => source.name = name
  | .vertex _ _ => false

/-- A part hangs on its owner: one statement declares it, one edge comes to it, from the owner, and one
leads from it to its type, where it has a type to lead to. -/
structure Hangs (lines : List Statement) (owner : NodeId) (part : Part) : Prop where
  declared : lines.filter (Statement.declares part.vertex.name) = [.vertex part.vertex part.label]
  entered : lines.filter (Statement.enters part.vertex.name) = [.edge (.node owner) part.vertex]
  left : lines.filter (Statement.leaves part.vertex.name) =
    part.ty.toList.map (fun ty => .edge part.vertex (.node ty))

theorem filteredPart (shows : Shows seen lines) {id : NodeId} {n : Node} (shown : (id, n) ∈ seen)
    {part : Part} (member : part ∈ parts id n) (test : Statement → Bool)
    (about : ∀ line, test line = true → line.touches part.vertex = true) :
    (lines.filter test).Perm ((part.lines id).filter test) := by
  have narrowed := (touchedOnce shows shown member).filter test
  rw [List.filter_filter] at narrowed
  have same : ∀ line : Statement, (test line && line.touches part.vertex) = test line := by
    intro line
    cases passed : test line with
    | true => rw [about line passed, Bool.and_self]
    | false => rfl
  simpa only [same] using narrowed

theorem hangs (shows : Shows seen lines) {id : NodeId} {n : Node} (shown : (id, n) ∈ seen)
    {part : Part} (member : part ∈ parts id n) : Hangs lines id part := by
  have once := filteredPart shows shown member
  have node : ∀ c, Vertex.node c ≠ part.vertex := fun c same => partApart member c same.symm
  have named : ∀ {v : Vertex}, v.name = part.vertex.name ↔ v = part.vertex := nameInjective.eq_iff
  obtain ⟨vertex, label, ty⟩ := part
  refine ⟨List.perm_singleton.mp ?_, List.perm_singleton.mp ?_, ?_⟩
  · refine (once (Statement.declares vertex.name) (fun line declares => ?_)).trans ?_
    · cases line <;> simp_all [Statement.declares, Statement.touches]
    · cases ty <;> simp [Part.lines, Statement.declares]
  · refine (once (Statement.enters vertex.name) (fun line enters => ?_)).trans ?_
    · cases line <;> simp_all [Statement.enters, Statement.touches]
    · cases ty <;> simp [Part.lines, Statement.enters, named, node]
  · have left := once (Statement.leaves vertex.name) (fun line leaves => by
      cases line <;> simp_all [Statement.leaves, Statement.touches])
    cases ty with
    | none => exact List.perm_nil.mp (by simpa [Part.lines, Statement.leaves, named, node] using left)
    | some ty =>
      exact List.perm_singleton.mp (by simpa [Part.lines, Statement.leaves, named, node] using left)

theorem shownNext {g : Graph} {starts : List NodeId} (found : ∀ v ∈ seen, g.node? v.1 = some v.2)
    (reached : ∀ id, id ∈ seen.map Prod.fst ↔ g.Reached drawn starts id) {v : NodeId × Node}
    (shown : v ∈ seen) {c : NodeId} (next : c ∈ drawn v.2) : ∃ w ∈ seen, w.1 = c := by
  obtain ⟨start, top, path⟩ := (reached v.1).mp (List.mem_map_of_mem shown)
  have further : g.Reached drawn starts c := ⟨start, top, path.tail ⟨v.2, found v shown, next⟩⟩
  exact List.mem_map.mp ((reached c).mpr further)

theorem nodeDeclared (shows : Shows seen lines) {id : NodeId} :
    lines.countP (Statement.declares (Vertex.node id).name) = 1 ↔ ∃ v ∈ seen, v.1 = id := by
  rw [declaredVertex shows]
  constructor
  · rintro ⟨v, shown, mine⟩
    exact ⟨v, shown, (ownOwner mine).symm⟩
  · rintro ⟨v, shown, rfl⟩
    exact ⟨v, shown, by rw [ownVertices]; exact List.mem_cons_self⟩

theorem partsHang {g : Graph} (whole : g.firstDangling = none) :
    ∃ lines, statements g g.roots = .ok lines ∧
      (∀ slot, printed g slot [] (g.roots.map .node) = .ok lines) ∧
      render g = .ok ("digraph \x7b\n" ++ String.join (lines.map Statement.text) ++ "\x7d\n") ∧
      (∀ name, lines.countP (Statement.declares name) ≤ 1) ∧
      (∀ source target, .edge source target ∈ lines →
        lines.countP (Statement.declares source.name) = 1 ∧
          lines.countP (Statement.declares target.name) = 1) ∧
      (∀ id, lines.countP (Statement.declares (Vertex.node id).name) = 1 ↔
        g.Reached drawn g.roots id) ∧
      ∀ id n, lines.countP (Statement.declares (Vertex.node id).name) = 1 → g.node? id = some n →
        ∀ part ∈ parts id n, Hangs lines id part := by
  have closed := Graph.wholeClosed whole
  obtain ⟨lines, listed⟩ := Graph.listEnds closed stays closed.roots
  obtain ⟨seen, found, distinct, reached, same⟩ := Graph.listOnce traverses lists listed
  have shows : Shows seen lines := ⟨distinct, same⟩
  refine ⟨lines, listed, fun slot => (printedStatements g slot g.roots).trans listed,
    bindAnswers.mpr ⟨lines, listed, rfl⟩, ?_, ?_, ?_, ?_⟩
  · intro name
    rw [declaredOnce shows]
    split <;> omega
  · intro source target inside
    obtain ⟨v, shown, mine⟩ := List.mem_flatMap.mp (same.mem_iff.mp inside)
    obtain ⟨first, second⟩ := ownEdges mine
    refine ⟨(declaredVertex shows).mpr ⟨v, shown, first⟩, ?_⟩
    rcases second with here | ⟨c, next, rfl⟩
    · exact (declaredVertex shows).mpr ⟨v, shown, here⟩
    · exact (nodeDeclared shows).mpr (shownNext found reached shown next)
  · intro id
    rw [nodeDeclared shows, ← reached, List.mem_map]
  · intro id n declared at_id part member
    obtain ⟨⟨other, m⟩, shown, rfl⟩ := (nodeDeclared shows).mp declared
    cases (found _ shown).symm.trans at_id
    exact hangs shows shown member

/- A container of pairs that are records of two arguments themselves, with a base, a bit field and a
virtual function; the key leads back to the container. -/
def nestedGraph : Graph where
  nodes := #[
    .container ⟨"std::map", 48, 8, [.type ⟨1⟩ .const, .type ⟨2⟩ .empty, .template "std::less"]⟩,
    .record ⟨.structKind, "Pair", "Pair<Pair<Key, 2>, Key>", 16, 8, false,
      [.type ⟨2⟩ .empty, .type ⟨3⟩ .const], [⟨⟨3⟩, 0⟩], [⟨"flag", ⟨4⟩, 64, 1⟩], [⟨"swap", true⟩]⟩,
    .record ⟨.classKind, "Pair", "Pair<Key, 2>", 16, 8, true,
      [.type ⟨3⟩ .empty, .value ⟨4⟩ "2"], [], [⟨"first", ⟨3⟩, 0, 0⟩, ⟨"second", ⟨3⟩, 0, 0⟩], []⟩,
    .pointer ⟨0⟩, .primitive .int32]
  roots := [⟨0⟩, ⟨3⟩]
  slots := Graph.empty.slots.setIfInBounds (Primitive.index .int32) (some ⟨4⟩)

theorem nestedHang : ∃ lines, statements nestedGraph nestedGraph.roots = .ok lines ∧
    lines.filter (Statement.declares "n0_t1") = [.vertex (.param ⟨0⟩ 1) "Param"] ∧
    lines.filter (Statement.enters "n0_t1") = [.edge (.node ⟨0⟩) (.param ⟨0⟩ 1)] ∧
    lines.filter (Statement.leaves "n0_t1") = [.edge (.param ⟨0⟩ 1) (.node ⟨2⟩)] := by
  obtain ⟨lines, listed, _, _, _, _, shown, each⟩ := partsHang (g := nestedGraph) rfl
  have root : nestedGraph.Reached drawn nestedGraph.roots ⟨0⟩ := Graph.reachedStart (by decide)
  have hang := each ⟨0⟩ _ ((shown ⟨0⟩).mpr root) rfl ⟨.param ⟨0⟩ 1, "Param", some ⟨2⟩⟩
    (List.mem_cons_of_mem _ List.mem_cons_self)
  exact ⟨lines, listed, hang.declared, hang.entered, hang.left⟩

end ObjectLayout.Diagram
