import ObjectLayout.Proofs.Expansion.Exploration
import ObjectLayout.Proofs.Graph.Renaming

/-! What an expansion allocates is below the node that it ends with. So it is with a wrapper that the
types below have led back to and given a node: it allocates none of its own, but the node that it ends
with has the node of the target for a child. -/
namespace ObjectLayout.Expansion

variable {t : Table} {o : Options}

def Gathered (s last : Session) (tops : List NodeId) : Prop :=
  ∀ id, s.graph.nodes.size ≤ id.raw → id.raw < last.graph.nodes.size →
    ∃ top ∈ tops, id ∈ last.graph.below top

theorem belowKept {g h : Graph} (kept : ∀ a b, g.Points a b → h.Points a b) {top id : NodeId}
    (reached : id ∈ g.below top) : id ∈ h.below top :=
  Relation.ReflTransGen.mono kept _ _ reached

theorem pointsGrown {s s' : Session} (grown : Session.Grown s s') {a b : NodeId}
    (points : s.graph.Points a b) : s'.graph.Points a b := by
  obtain ⟨n, node, child⟩ := points
  exact ⟨n, (grown.graph.node a (Graph.nodeInside node)).trans node, child⟩

theorem gatheredNothing {s last : Session} (tops : List NodeId)
    (size : last.graph.nodes.size = s.graph.nodes.size) : Gathered s last tops := by
  intro id newer inside
  omega

theorem gatheredOne {s last : Session} {top : NodeId}
    (only : ∀ id, s.graph.nodes.size ≤ id.raw → id.raw < last.graph.nodes.size → id = top) :
    Gathered s last [top] := by
  intro id newer inside
  rw [only id newer inside]
  exact ⟨top, List.mem_singleton_self top, .refl⟩

theorem gatheredTrans {a b c : Session} {first second : List NodeId} (grown : Session.Grown b c)
    (h : Gathered a b first) (k : Gathered b c second) : Gathered a c (first ++ second) := by
  intro id newer inside
  rcases Nat.lt_or_ge id.raw b.graph.nodes.size with old | new
  · obtain ⟨top, member, reached⟩ := h id newer old
    exact ⟨top, List.mem_append_left _ member, belowKept (fun _ _ => pointsGrown grown) reached⟩
  · obtain ⟨top, member, reached⟩ := k id new inside
    exact ⟨top, List.mem_append_right _ member, reached⟩

theorem gatheredAbove {s last : Session} {tops : List NodeId} {top : NodeId}
    (h : Gathered s last tops) (above : ∀ child ∈ tops, child ∈ last.graph.below top) :
    Gathered s last [top] := by
  intro id newer inside
  obtain ⟨child, member, reached⟩ := h id newer inside
  exact ⟨top, List.mem_singleton_self top, (above child member).trans reached⟩

theorem gatheredEnter (s : Session) (ty : TypeId) (n : Node) :
    Gathered s (s.enter ty n) [⟨s.graph.nodes.size⟩] := by
  have size : (s.enter ty n).graph.nodes.size = s.graph.nodes.size + 1 := Graph.sizePush s.graph n
  apply gatheredOne
  intro id newer inside
  exact congrArg NodeId.mk (by omega)

theorem gatheredPrimitive {s last : Session} {kind : Primitive}
    (same : last.graph = (s.graph.addPrimitive kind).2) :
    Gathered s last [(s.graph.addPrimitive kind).1] := by
  cases filled : s.graph.slot kind with
  | some id =>
    rw [Graph.addPrimitiveOld filled] at same
    exact gatheredNothing _ (by rw [same])
  | none =>
    rw [Graph.addPrimitiveNew filled] at same ⊢
    have size : last.graph.nodes.size = s.graph.nodes.size + 1 := by
      rw [same]
      exact Graph.sizePush s.graph _
    apply gatheredOne
    intro id newer inside
    exact congrArg NodeId.mk (by omega)

/- Where a step ends with an answer; of its stops nothing is said. -/
abbrev Yields {α : Type} (s : Session) (x : Step α) (ok : α → Session → Prop) : Prop :=
  Meets s x ok (fun _ _ => True)

theorem stubRuns {visit : TypeId → Step NodeId} {s : Session} {ty : TypeId} {e : TypeEntry}
    (found : t.entry? ty = some e) (address : e.type.pointee ≠ none)
    (unfollowed : o.follows s.depth = false) :
    expandType t o visit ty e.type s =
      .ok (s.graph.addPrimitive .stubbedPointer).1 (s.share .stubbedPointer) := by
  have defined := addressComplete found address
  have kept : ¬ o.follows s.depth = true := by simp [unfollowed]
  simp only [expandType, askOk defined, pure_bind, if_true]
  generalize e.type = c at address
  cases c with
  | pointer pointee =>
    simp only [expandPointer, getRuns, if_neg kept]
    rfl
  | reference pointee =>
    simp only [expandReference, getRuns, if_neg kept]
    rfl
  | _ => exact absurd rfl address

theorem metQuiet {s : Session} {ty : TypeId} (deep : 0 < s.depth) (met : Met t o.chasePointers s ty)
    (room : Nat) :
    Yields s (Expansion.expand t o room ty) (fun _ last => last.memo = s.memo) := by
  have known : ∀ {ty id}, s.lookup ty = some id → ∀ room,
      Yields s (Expansion.expand t o room ty) (fun _ last => last.memo = s.memo) :=
    fun looked room => meetsMono (expandKnown looked room) (fun _ _ same => congrArg Session.memo same.2)
      (fun _ _ _ => trivial)
  induction met generalizing room with
  | known knows =>
    obtain ⟨id, looked⟩ := knows
    exact known looked room
  | @address ty address unfollowed =>
    obtain ⟨e, found, pointee⟩ := address
    cases looked : s.lookup ty with
    | some id => exact known looked room
    | none =>
      cases room with
      | zero => trivial
      | succ room =>
        have below : o.follows (s.depth + 1) = false := (followsBelow deep).trans unfollowed
        apply meetsRun (expandWithFresh looked found)
        simp only [addressPlain pointee]
        apply meetsDeeper
        unfold Meets
        rw [stubRuns found pointee below]
        rfl
  | @sugar ty e target found step rest ih =>
    cases looked : s.lookup ty with
    | some id => exact known looked room
    | none =>
      cases room with
      | zero => trivial
      | succ room =>
        apply meetsRun (expandWithFresh looked found)
        simp only [step]
        exact ih room

theorem desugarsMet {followed} {s : Session} {ty last : TypeId} (path : t.Desugars ty last)
    (met : Met t followed s last) : Met t followed s ty := by
  induction path with
  | plain => exact met
  | sugar found step rest ih => exact .sugar found step (ih met)

theorem unmetLinked {followed} {s s' : Session} {ty : TypeId} {id : NodeId}
    (unmet : ¬ Met t followed s ty) (link : Linked t followed s' ty id) :
    ∃ last, t.Desugars ty last ∧ s'.lookup last = some id := by
  cases link with
  | known path looked => exact ⟨_, path, looked⟩
  | stub path found address unfollowed node =>
    exact absurd (desugarsMet path (.address ⟨_, found, address⟩ unfollowed)) unmet

theorem wrappedChild {link : TypeId → NodeId → Prop} {ty target : TypeId} {e : TypeEntry} {n : Node}
    (found : t.entry? ty = some e) (wraps : e.type.wrapped = some target)
    (defined : t.isComplete ty = .ok true) (h : Describes t o link ty n) :
    ∃ child ∈ n.children, link target child := by
  cases h with
  | incomplete undefined => cases undefined.symm.trans defined
  | complete again _ built =>
    cases found.symm.trans again
    generalize e.type = c at wraps built
    cases built with
    | builtin | record | enum => contradiction
    | array _ child | synonym _ _ child | pointer child | reference _ child | address _ child =>
      cases wraps
      exact ⟨_, List.mem_singleton_self _, child⟩

structure VisitsGather (t : Table) (o : Options) (visit : TypeId → Step NodeId) (room : Nat) :
    Prop where
  answers : Visits t o True visit room
  gathers : ∀ s ty, Ready t o True s → ty.raw < t.types.size → cost t s ty < room →
    Yields s (visit ty) (fun id last => Gathered s last [id])
  quiet : ∀ s ty, 0 < s.depth → Met t o.chasePointers s ty →
    Yields s (visit ty) (fun _ last => last.memo = s.memo)

structure Beneath (t : Table) (o : Options) (s : Session) (target : TypeId) (id : NodeId)
    (last : Session) : Prop where
  answered : Answered t o True o.chasePointers s target id last
  gathered : Gathered s last [id]
  quiet : Met t o.chasePointers s target → last.memo = s.memo

section
variable {s : Session} {ty target : TypeId} {e : TypeEntry} (fresh : s.lookup ty = none)
  (found : t.entry? ty = some e) (wraps : e.type.wrapped = some target)
  (defined : t.isComplete ty = .ok true)

include found wraps in
theorem targetGathers (sound : t.Sound) {visit room} (visits : VisitsGather t o visit room)
    (ready : Ready t o True s) (deep : 0 < s.depth) (roomy : cost t s ty ≤ room) :
    Yields s (visit target) (Beneath t o s target) := by
  have falls := sound.wraps found wraps
  have inside := Nat.lt_trans falls (Table.entryInRange found)
  have less : cost t s target < room :=
    Nat.lt_of_lt_of_le (Nat.add_lt_add_left falls _) roomy
  have answers := visits.answers s target ready inside less
  rw [followsBelow deep] at answers
  have both := meetsBoth answers (visits.gathers s target ready inside less)
  by_cases met : Met t o.chasePointers s target
  · exact meetsMono (meetsBoth both (visits.quiet s target deep met))
      (fun _ _ h => ⟨h.1.1, h.1.2, fun _ => h.2⟩) (fun _ _ _ => trivial)
  · exact meetsMono both (fun _ _ h => ⟨h.1, h.2, fun other => absurd other met⟩)
      (fun _ _ _ => trivial)

include fresh found wraps defined in
/- The node that the wrapper was given on the way has the child that was found for it here: the
target had not been met, so there is one node only that it can stand for. -/
theorem knownWrapper {id old : NodeId} {s' : Session} (below : Beneath t o s target id s')
    (looked : s'.lookup ty = some old) : s'.graph.Points old id := by
  have unmet : ¬ Met t o.chasePointers s target := by
    intro met
    have same : s'.lookup ty = s.lookup ty := by rw [Session.lookup, below.quiet met]; rfl
    rw [looked, fresh] at same
    contradiction
  rcases below.answered.progress.described trivial ty old looked with before | ⟨n, node, shown⟩
  · rw [fresh] at before
    contradiction
  · obtain ⟨child, member, link⟩ := wrappedChild found wraps defined shown
    obtain ⟨a, first, at_a⟩ := unmetLinked unmet link
    obtain ⟨b, second, at_b⟩ := unmetLinked unmet (below.answered.child.linked trivial)
    cases Table.desugarsUnique first second
    cases at_a.symm.trans at_b
    exact ⟨n, node, member⟩

include fresh found wraps defined in
theorem registerGathers {id : NodeId} {s' : Session} (below : Beneath t o s target id s')
    (plain : e.type.sugarTarget = none) {n : Node} (own : n.isPrimitive = false)
    (whole : n.isIncomplete = false) (children : n.children = [id]) :
    Yields s' (registerNew ty n) (fun top last => Gathered s last [top]) := by
  unfold Yields Meets
  cases looked : s'.lookup ty with
  | some old =>
    rw [registerNewKnown looked]
    refine gatheredAbove below.gathered (fun child member => .single ?_)
    rw [List.mem_singleton.mp member]
    exact knownWrapper fresh found wraps defined below looked
  | none =>
    rw [registerNewFresh looked]
    have closed : ∀ c ∈ n.children, c.raw < s'.graph.nodes.size := by
      intro c member
      rw [children, List.mem_singleton] at member
      exact member ▸ below.answered.child.inside
    have path : Advance t o s' (s'.enter ty n) :=
      .single (.enter looked found plain (by rw [whole]; exact defined) own closed)
    refine gatheredAbove (gatheredTrans (Session.advanceGrown path) below.gathered
      (gatheredEnter s' ty n)) (fun child member => ?_)
    rcases List.mem_cons.mp member with rfl | last
    · exact .single ⟨n, Session.nodeEntered s' ty n, by rw [children]; exact List.mem_singleton_self _⟩
    · rw [List.mem_singleton.mp last]
      exact .refl

include fresh found wraps defined in
theorem wrapperGathers (sound : t.Sound) {visit room} (visits : VisitsGather t o visit room)
    (ready : Ready t o True s) (deep : 0 < s.depth) (roomy : cost t s ty ≤ room)
    (plain : e.type.sugarTarget = none) {make : NodeId → Node}
    (own : ∀ id, (make id).isPrimitive = false) (whole : ∀ id, (make id).isIncomplete = false)
    (children : ∀ id, (make id).children = [id]) :
    Yields s (do let id ← visit target; registerNew ty (make id))
      (fun top last => Gathered s last [top]) :=
  meetsThen (targetGathers found wraps sound visits ready deep roomy)
    (fun id _ below => registerGathers fresh found wraps defined below plain (own id) (whole id)
      (children id))

end

def PartsGather (t : Table) (o : Options) (visit : TypeId → Step NodeId) (base : Session) : Prop :=
  ∀ s part, Progress t o True base s → part.raw < t.types.size →
    Yields s (visit part) (fun id last => Progress t o True s last ∧ Gathered s last [id])

theorem eachGathers {α β : Type} {f : α → Step β} (kids : β → List NodeId) {xs : List α} {s : Session}
    (each : ∀ a ∈ xs, ∀ s', Progress t o True s s' →
      Yields s' (f a) (fun b last => Progress t o True s' last ∧ Gathered s' last (kids b))) :
    Yields s (xs.mapM f)
      (fun bs last => Progress t o True s last ∧ Gathered s last (bs.flatMap kids)) := by
  induction xs generalizing s with
  | nil =>
    rw [List.mapM_nil]
    exact ⟨progressRefl s, gatheredNothing _ rfl⟩
  | cons a rest ih =>
    rw [List.mapM_cons]
    apply meetsThen (each a List.mem_cons_self s (progressRefl s))
    rintro b s₁ ⟨first, head⟩
    apply meetsThen (ih (fun x inside s' after =>
      each x (List.mem_cons_of_mem _ inside) s' (progressTrans first after)))
    rintro bs s₂ ⟨second, tail⟩
    refine ⟨progressTrans first second, ?_⟩
    rw [List.flatMap_cons]
    exact gatheredTrans (Session.advanceGrown second.path) head tail

section
variable {visit : TypeId → Step NodeId} {base s : Session} (parts : PartsGather t o visit base)
  (after : Progress t o True base s)
include parts after

theorem partGathers {β : Type} {part : TypeId} (inside : part.raw < t.types.size)
    {make : NodeId → β} {kids : β → List NodeId} (one : ∀ id, kids (make id) = [id]) :
    Yields s (do let id ← visit part; pure (make id))
      (fun b last => Progress t o True s last ∧ Gathered s last (kids b)) := by
  apply meetsThen (parts s part after inside)
  rintro id last ⟨progress, gathered⟩
  refine ⟨progress, ?_⟩
  rw [one]
  exact gathered

theorem paramGathers {a : TemplateArgument}
    (inside : ∀ part, a.type? = some part → part.raw < t.types.size) :
    Yields s (expandParam visit a)
      (fun p last => Progress t o True s last ∧ Gathered s last p.type?.toList) := by
  cases a with
  | type part isConst => exact partGathers parts after (inside part rfl) (fun _ => rfl)
  | integral part value => exact partGathers parts after (inside part rfl) (fun _ => rfl)
  | template name =>
    cases name with
    | template qualifiedName => exact ⟨progressRefl s, gatheredNothing _ rfl⟩
    | indirect kind => trivial
  | unmodelled kind => trivial

end

/- A record has no children until it is filled, so nothing was below another node through it. -/
theorem fillGathers {s last : Session} {ty : TypeId} {old r : Record} {tops : List NodeId}
    (empty : (Node.record old).children = [])
    (gathered : Gathered (s.enter ty (.record old)) last tops)
    (node : last.graph.node? ⟨s.graph.nodes.size⟩ = some (.record old))
    (children : ∀ c ∈ tops, c ∈ (Node.record r).children) :
    Gathered s (last.refill ⟨s.graph.nodes.size⟩ r) [⟨s.graph.nodes.size⟩] := by
  have nodes := Graph.nodeSetRecord (Graph.nodeInside node) r
  have kept : ∀ a b, last.graph.Points a b →
      (last.refill ⟨s.graph.nodes.size⟩ r).graph.Points a b := by
    rintro a b ⟨n, at_a, child⟩
    refine ⟨n, (nodes a).trans ?_, child⟩
    split
    · rename_i same
      rw [same, node] at at_a
      cases at_a
      rw [empty] at child
      contradiction
    · exact at_a
  have size : (s.enter ty (.record old)).graph.nodes.size = s.graph.nodes.size + 1 :=
    Graph.sizePush s.graph _
  intro id newer inside
  refine ⟨_, List.mem_singleton_self _, ?_⟩
  rcases Nat.eq_or_lt_of_le newer with same | later
  · have here : id = ⟨s.graph.nodes.size⟩ := congrArg NodeId.mk same.symm
    rw [here]
    exact .refl
  · have bound : id.raw < last.graph.nodes.size := by
      simpa only [Session.refill, Graph.sizeSetRecord] using inside
    obtain ⟨top, member, reached⟩ := gathered id (by omega) bound
    exact .head ⟨_, (nodes _).trans (if_pos rfl), children top member⟩ (belowKept kept reached)

theorem recordGathers (sound : t.Sound) {visit : TypeId → Step NodeId} {s : Session} {ty : TypeId}
    {e : TypeEntry} {d : DeclId} (found : t.entry? ty = some e) (same : e.type = .record d)
    (defined : t.isComplete ty = .ok true)
    (parts : ∀ old, (Node.record old).children = [] →
      PartsGather t o visit (s.enter ty (.record old))) :
    Yields s (expandRecord t visit ty d) (fun top last => Gathered s last [top]) := by
  obtain ⟨info, x, decl, mentions⟩ := Table.completeRecord sound found same defined
  obtain ⟨size, sized⟩ := Table.sizeInBitsAnswers sound (Table.entryInRange found)
  obtain ⟨align, aligned⟩ := Table.alignInBitsAnswers sound (Table.entryInRange found)
  have parts := parts (hollow info size align) rfl
  apply meetsRun (expandRecordRuns decl sized aligned)
  apply meetsThen (eachGathers (fun p => p.type?.toList) (fun a member s' path =>
    paramGathers parts path (fun part mentioned =>
      mentions part (RecordDef.mentionsArgument member mentioned))))
  rintro params s₂ ⟨first, args⟩
  apply meetsThen (eachGathers (fun p => [p.ty]) (fun b member s' path =>
    partGathers parts (progressTrans first path) (mentions b.ty (RecordDef.mentionsBase member))
      (fun _ => rfl)))
  rintro parents s₃ ⟨second, bases⟩
  apply meetsThen (eachGathers (fun m => [m.ty]) (fun f member s' path =>
    partGathers parts (progressTrans first (progressTrans second path))
      (mentions f.ty (RecordDef.mentionsField member)) (fun _ => rfl)))
  rintro members s₄ ⟨third, fields⟩
  have gathered := gatheredTrans (Session.advanceGrown third.path)
    (gatheredTrans (Session.advanceGrown second.path) args bases) fields
  have grown := Session.advanceGrown (progressTrans first (progressTrans second third)).path
  have entered := Session.nodeEntered s ty (.record (hollow info size align))
  have node := (grown.graph.node _ (Graph.nodeInside entered)).trans entered
  unfold Meets
  rw [fillRuns node]
  refine fillGathers rfl gathered node (fun c member => ?_)
  simp only [List.mem_append, List.mem_flatMap, Option.mem_toList, List.mem_singleton] at member
  rcases member with (⟨p, held, mentioned⟩ | ⟨p, held, rfl⟩) | ⟨m, held, rfl⟩
  · exact List.mem_append_left _
      (List.mem_append_left _ (List.mem_filterMap.mpr ⟨p, held, mentioned⟩))
  · exact List.mem_append_left _ (List.mem_append_right _ (List.mem_map_of_mem held))
  · exact List.mem_append_right _ (List.mem_map_of_mem (List.mem_mergeSort.mpr held))

theorem enumGathers (sound : t.Sound) {s : Session} {ty : TypeId} {e : TypeEntry} {d : DeclId}
    (found : t.entry? ty = some e) (same : e.type = .enum d) (defined : t.isComplete ty = .ok true) :
    Yields s (expandEnum t o ty d) (fun top last => Gathered s last [top]) := by
  obtain ⟨name, x, decl⟩ := Table.completeEnum sound found same defined
  obtain ⟨size, sized⟩ := Table.sizeInBitsAnswers sound (Table.entryInRange found)
  unfold Yields Meets
  rw [expandEnumRuns decl sized]
  exact gatheredEnter s ty _

section
variable (sound : t.Sound) {visit : TypeId → Step NodeId} {room : Nat}
  (visits : VisitsGather t o visit room) {s : Session} (ready : Ready t o True s)
  {ty : TypeId} {e : TypeEntry} (fresh : s.lookup ty = none) (found : t.entry? ty = some e)
include sound visits ready fresh found

omit sound in
theorem recordPartsGather (deep : 0 < s.depth) (defined : t.isComplete ty = .ok true)
    (roomy : cost t s ty ≤ room) {d : DeclId} (same : e.type = .record d) (old : Record)
    (empty : (Node.record old).children = []) :
    PartsGather t o visit (s.enter ty (.record old)) := by
  intro s' part progress inside
  have ready' := readyAfter ready
    (advanceTrans (recordEnters fresh found same defined empty) progress.path)
  have less := recordPartCost fresh found same defined empty progress inside
  have answers := visitsRecord visits.answers deep fresh found same defined roomy old empty s' part
    ready' progress inside
  have gathers := visits.gathers s' part ready' inside (Nat.lt_of_lt_of_le less roomy)
  exact meetsMono (meetsBoth answers gathers) (fun _ _ h => ⟨h.1.progress, h.2⟩)
    (fun _ _ _ => trivial)

theorem pointerGathers (deep : 0 < s.depth) (defined : t.isComplete ty = .ok true)
    (roomy : cost t s ty ≤ room) {pointee : TypeId} (same : e.type = .pointer pointee) :
    Yields s (expandPointer o visit ty pointee) (fun top last => Gathered s last [top]) := by
  apply meetsRun (getRuns _)
  split
  · exact wrapperGathers fresh found (by rw [same]; rfl) defined sound visits ready deep roomy
      (by rw [same]; rfl) (fun _ => rfl) (fun _ => rfl) (fun _ => rfl)
  · exact gatheredPrimitive rfl

theorem referenceGathers (deep : 0 < s.depth) (defined : t.isComplete ty = .ok true)
    (roomy : cost t s ty ≤ room) {pointee : TypeId} (same : e.type = .reference pointee) :
    Yields s (expandReference o visit ty pointee) (fun top last => Gathered s last [top]) := by
  have wraps : e.type.wrapped = some pointee := by rw [same]; rfl
  have plain : e.type.sugarTarget = none := by rw [same]; rfl
  apply meetsRun (getRuns _)
  split
  · apply meetsThen (targetGathers found wraps sound visits ready deep roomy)
    intro id s' below
    obtain ⟨n, node⟩ := Graph.nodeOfInside below.answered.child.inside
    have got : s'.graph.node id = .ok n := by simp [Graph.node, node]
    apply meetsRun (getRuns _)
    rw [askOk got, pure_bind]
    split <;> exact registerGathers fresh found wraps defined below plain rfl rfl rfl
  · exact gatheredPrimitive rfl

theorem typeGathers (deep : 0 < s.depth) (plain : e.type.sugarTarget = none)
    (roomy : cost t s ty ≤ room) :
    Yields s (expandType t o visit ty e.type) (fun top last => Gathered s last [top]) := by
  obtain ⟨complete, defined⟩ := Table.isCompleteAnswers sound (Table.entryInRange found)
  obtain ⟨name, named⟩ := Table.displayNameAnswers sound (Table.entryInRange found)
  cases complete with
  | false =>
    unfold Yields Meets
    rw [expandIncompleteRuns defined named]
    exact gatheredEnter s ty _
  | true =>
    have wrapper : ∀ target (make : NodeId → Node), e.type.wrapped = some target →
        (∀ id, (make id).isPrimitive = false) → (∀ id, (make id).isIncomplete = false) →
        (∀ id, (make id).children = [id]) →
        Yields s (do let id ← visit target; registerNew ty (make id))
          (fun top last => Gathered s last [top]) :=
      fun target make wraps own whole children =>
        wrapperGathers fresh found wraps defined sound visits ready deep roomy plain own whole children
    unfold expandType
    rw [askOk defined, pure_bind, if_pos rfl]
    cases same : e.type with
    | builtin kind =>
      cases measured : kind.primitive? o.model with
      | none =>
        simp only [measured]
        trivial
      | some p =>
        simp only [measured]
        exact gatheredPrimitive rfl
    | record d =>
      exact recordGathers sound found same defined
        (recordPartsGather visits ready fresh found deep defined roomy same)
    | enum d => exact enumGathers sound found same defined
    | pointer pointee => exact pointerGathers sound visits ready fresh found deep defined roomy same
    | reference pointee => exact referenceGathers sound visits ready fresh found deep defined roomy same
    | array element length =>
      exact wrapper element _ (by rw [same]; rfl) (fun _ => rfl) (fun _ => rfl) (fun _ => rfl)
    | synonym form name target =>
      exact wrapper target _ (by rw [same]; rfl) (fun _ => rfl) (fun _ => rfl) (fun _ => rfl)
    | sugar form target =>
      rw [same] at plain
      contradiction
    | dependentSpecialization | unmodelled category => trivial

end

theorem withGathers (sound : t.Sound) {visit room} (visits : VisitsGather t o visit room)
    {s : Session} (ready : Ready t o True s) {ty : TypeId} (inside : ty.raw < t.types.size)
    (roomy : cost t s ty ≤ room) :
    Yields s (expandWith t o visit ty) (fun top last => Gathered s last [top]) := by
  cases looked : s.lookup ty with
  | some id =>
    unfold Yields Meets
    rw [expandWithKnown looked]
    exact gatheredNothing _ rfl
  | none =>
    obtain ⟨e, found⟩ := Table.entryOfRange inside
    apply meetsRun (expandWithFresh looked found)
    cases step : e.type.sugarTarget with
    | none =>
      have down : Advance t o s { s with depth := s.depth + 1 } := .single (.level _)
      exact meetsDeeper (typeGathers sound visits (readyAfter ready down) looked found
        (Nat.succ_pos _) step roomy)
    | some inner =>
      have falls := sound.wraps found (sugarWraps step)
      exact visits.gathers s inner ready (Nat.lt_trans falls inside)
        (Nat.lt_of_lt_of_le (Nat.add_lt_add_left falls _) roomy)

theorem expandGathers (sound : t.Sound) (room : Nat) :
    VisitsGather t o (Expansion.expand t o room) room := by
  refine ⟨expandAnswers sound room, ?_, fun s ty deep met => metQuiet deep met room⟩
  induction room with
  | zero => exact fun s ty ready inside roomy => absurd roomy (Nat.not_lt_zero _)
  | succ room ih =>
    intro s ty ready inside roomy
    have visits : VisitsGather t o (Expansion.expand t o room) room :=
      ⟨expandAnswers sound room, ih, fun s ty deep met => metQuiet deep met room⟩
    exact withGathers sound visits ready inside (Nat.le_of_lt_succ roomy)

end ObjectLayout.Expansion
