import ObjectLayout.Proofs.Expansion.Progress

/-! How every function of the expansion ends, one statement for each. What a function asks of the
types below is a bound on how far they can still lead; the last statement gives that bound to the
recursion as a whole. -/
namespace ObjectLayout.Expansion

variable {t : Table} {o : Options} {precise : Prop}

theorem enterAnswers {followed} {s : Session} {ty : TypeId} {e : TypeEntry} {n : Node}
    (fresh : s.lookup ty = none) (found : t.entry? ty = some e) (plain : e.type.sugarTarget = none)
    (complete : t.isComplete ty = .ok (!n.isIncomplete)) (own : n.isPrimitive = false)
    (closed : ∀ c ∈ n.children, c.raw < s.graph.nodes.size)
    (described : precise → Describes t o (Linked t o.chasePointers s) ty n) :
    Answered t o precise followed s ty ⟨s.graph.nodes.size⟩ (s.enter ty n) := by
  have path : Advance t o s (s.enter ty n) := .single (.enter fresh found plain complete own closed)
  have grown := Session.advanceGrown path
  have node := Session.nodeEntered s ty n
  have entered := Session.lookupEntered s ty n
  have all : precise → Described t o s (s.enter ty n) := by
    intro sure other id looked
    rw [Session.lookupEnter] at looked
    split at looked
    · rename_i same
      cases looked
      rw [same]
      exact .inr ⟨n, node, describesKept (fun _ _ link => linkedGrown grown link) (described sure)⟩
    · exact .inl looked
  exact ⟨⟨path, rfl, all⟩, ⟨Graph.nodeInside node, fun _ => .known (.plain found plain) entered⟩⟩

theorem shareForAnswers {followed} {s : Session} (ready : Ready t o precise s) {ty : TypeId}
    {e : TypeEntry} {builtin : Builtin} {kind : Primitive} (fresh : s.lookup ty = none)
    (found : t.entry? ty = some e) (same : e.type = .builtin builtin)
    (measured : builtin.primitive? o.model = some kind) (defined : t.isComplete ty = .ok true) :
    Answered t o precise followed s ty (s.graph.addPrimitive kind).1 (s.shareFor ty kind) := by
  have path : Advance t o s (s.shareFor ty kind) := .single (.shareFor fresh found same measured)
  have plain : e.type.sugarTarget = none := by rw [same]; rfl
  have entered : (s.shareFor ty kind).lookup ty = some (s.graph.addPrimitive kind).1 := by
    rw [Session.lookupShareFor, if_pos rfl]
  have inside := (Session.addPrimitiveResolves ready.resolved.slots kind).1
  have all : precise → Described t o s (s.shareFor ty kind) := by
    intro sure other id looked
    rw [Session.lookupShareFor] at looked
    split at looked
    · rename_i equal
      cases looked
      rw [equal]
      exact .inr ⟨_, Graph.addPrimitiveNode (ready.coherent sure).slots kind,
        .complete found defined (same ▸ .builtin measured)⟩
    · exact .inl looked
  exact ⟨⟨path, rfl, all⟩, ⟨inside, fun _ => .known (.plain found plain) entered⟩⟩

theorem stubAnswers {s : Session} (ready : Ready t o precise s) {ty : TypeId} {e : TypeEntry}
    (found : t.entry? ty = some e) (address : e.type.pointee ≠ none)
    (plain : e.type.sugarTarget = none) :
    Answered t o precise false s ty (s.graph.addPrimitive .stubbedPointer).1
      (s.share .stubbedPointer) :=
  ⟨⟨.single .stub, rfl, fun _ _ _ looked => .inl looked⟩,
    ⟨(Session.addPrimitiveResolves ready.resolved.slots _).1, fun sure =>
      .stub (.plain found plain) found address rfl
        (Graph.addPrimitiveNode (ready.coherent sure).slots _)⟩⟩

theorem knownAnswers {followed} {s : Session} (ready : Ready t o precise s) {ty : TypeId}
    {id : NodeId} (looked : s.lookup ty = some id) : Answered t o precise followed s ty id s := by
  have linked : precise → Linked t followed s ty id := by
    intro sure
    obtain ⟨e, found, plain⟩ := ((ready.coherent sure).entered ty id looked).plain
    exact .known (.plain found plain) looked
  exact ⟨progressRefl s, ⟨(ready.resolved.memo ty id looked).2, linked⟩⟩

theorem linkedRefill {followed} {s : Session} {place : NodeId} {old : Record}
    (node : s.graph.node? place = some (.record old)) (r : Record) {ty : TypeId} {id : NodeId}
    (link : Linked t followed s ty id) : Linked t followed (s.refill place r) ty id := by
  apply linkedKept (s := s) ?_ ?_ link
  · intro _ _ kept
    exact kept
  · intro other stub
    have apart : other ≠ place := by
      intro equal
      rw [equal, node] at stub
      simp at stub
    exact (Graph.nodeSetRecord (Graph.nodeInside node) r other).trans ((if_neg apart).trans stub)

/- Nothing else was given the node of the record, so the other descriptions do not notice that it is
written to. -/
theorem describedRefill {first s : Session} (coherent : s.Coherent t o) {ty : TypeId}
    {place : NodeId} {old r : Record} (described : Described t o first s)
    (entered : s.lookup ty = some place) (node : s.graph.node? place = some (.record old))
    (shown : Describes t o (Linked t o.chasePointers (s.refill place r)) ty (.record r))
    {other : TypeId} {id : NodeId} (looked : s.lookup other = some id) :
    first.lookup other = some id ∧ other ≠ ty ∨
      ∃ n, (s.refill place r).graph.node? id = some n ∧
        Describes t o (Linked t o.chasePointers (s.refill place r)) other n := by
  have filled := Graph.nodeSetRecord (Graph.nodeInside node) r
  by_cases equal : other = ty
  · subst equal
    have here : id = place := Option.some.inj (looked.symm.trans entered)
    exact .inr ⟨_, (filled id).trans (if_pos here), shown⟩
  · rcases described other id looked with before | ⟨n, at_id, kept⟩
    · exact .inl ⟨before, equal⟩
    · have apart : id ≠ place := by
        intro here
        subst here
        exact equal (coherent.own other ty _ _ looked entered node rfl)
      exact .inr ⟨n, (filled id).trans ((if_neg apart).trans at_id),
        describesKept (fun _ _ link => linkedRefill node r link) kept⟩

theorem recordEnters {s : Session} {ty : TypeId} {e : TypeEntry} {d : DeclId} {old : Record}
    (fresh : s.lookup ty = none) (found : t.entry? ty = some e) (same : e.type = .record d)
    (defined : t.isComplete ty = .ok true) (empty : (Node.record old).children = []) :
    Advance t o s (s.enter ty (.record old)) := by
  have plain : e.type.sugarTarget = none := by rw [same]; rfl
  exact .single (.enter fresh found plain defined rfl (by simp [empty]))

theorem fillAnswers {followed} {s s' : Session} (ready : Ready t o precise s) {ty : TypeId}
    {e : TypeEntry} {d : DeclId} {old r : Record} (fresh : s.lookup ty = none)
    (found : t.entry? ty = some e) (same : e.type = .record d)
    (defined : t.isComplete ty = .ok true) (empty : (Node.record old).children = [])
    (built : Progress t o precise (s.enter ty (.record old)) s')
    (described : ClassDescribes t o (Child t precise o.chasePointers s') ty (.record d) (.record r)) :
    Answered t o precise followed s ty ⟨s.graph.nodes.size⟩ (s'.refill ⟨s.graph.nodes.size⟩ r) := by
  have plain : e.type.sugarTarget = none := by rw [same]; rfl
  have path := advanceTrans (recordEnters fresh found same defined empty) built.path
  have grown := Session.advanceGrown built.path
  have first := Session.nodeEntered s ty (.record old)
  have node : s'.graph.node? ⟨s.graph.nodes.size⟩ = some (.record old) :=
    (grown.graph.node _ (Graph.nodeInside first)).trans first
  have entered : s'.lookup ty = some ⟨s.graph.nodes.size⟩ :=
    grown.memo _ _ (Session.lookupEntered s ty (.record old))
  have closed : ∀ c ∈ (Node.record r).children, c.raw < s'.graph.nodes.size := by
    intro c member
    obtain ⟨part, child⟩ := classChildren described member
    exact child.inside
  have all : precise → Described t o s (s'.refill ⟨s.graph.nodes.size⟩ r) := by
    intro sure other id looked
    have shown : ClassDescribes t o (Linked t o.chasePointers (s'.refill ⟨s.graph.nodes.size⟩ r)) ty
        e.type (.record r) :=
      same ▸ classDescribesKept (fun _ _ child => linkedRefill node r (child.linked sure)) described
    rcases describedRefill ((readyAfter ready path).coherent sure) (built.described sure) entered node
      (.complete found defined shown) looked with ⟨before, apart⟩ | after
    · rw [Session.lookupEnter, if_neg apart] at before
      exact .inl before
    · exact .inr after
  have inside : (⟨s.graph.nodes.size⟩ : NodeId).raw <
      (s'.refill ⟨s.graph.nodes.size⟩ r).graph.nodes.size := by
    simpa only [Session.refill, Graph.sizeSetRecord] using Graph.nodeInside node
  exact ⟨⟨path.tail (.fill (Nat.le_refl _) node closed), built.depth, all⟩,
    ⟨inside, fun _ => .known (.plain found plain) entered⟩⟩

def VisitsParts (t : Table) (o : Options) (precise : Prop) (visit : TypeId → Step NodeId)
    (base : Session) : Prop :=
  ∀ s ty, Ready t o precise s → Progress t o precise base s → ty.raw < t.types.size →
    Meets s (visit ty) (Answered t o precise o.chasePointers s ty) (Stopped t o s)

theorem visitsPartsAfter {visit} {a b : Session} (visits : VisitsParts t o precise visit a)
    (path : Progress t o precise a b) : VisitsParts t o precise visit b :=
  fun s ty ready after inside => visits s ty ready (progressTrans path after) inside

theorem stopsAfter {s s' : Session} (path : Advance t o s s') (depth : s'.depth = s.depth) :
    ∀ e last, Stopped t o s' e last → Stopped t o s e last :=
  fun _ _ stopped => stoppedAfter path depth stopped

theorem partsAnswer {α β : Type} {f : α → Step β} {Q : Session → α → β → Prop}
    (kept : ∀ {a b s s'}, Session.Grown s s' → Q s a b → Q s' a b) {visit : TypeId → Step NodeId}
    {xs : List α} {s : Session} (ready : Ready t o precise s)
    (visits : VisitsParts t o precise visit s)
    (each : ∀ a ∈ xs, ∀ s', Ready t o precise s' → VisitsParts t o precise visit s' →
      Meets s' (f a) (fun b last => Progress t o precise s' last ∧ Q last a b) (Stopped t o s')) :
    Meets s (xs.mapM f)
      (fun bs last => Progress t o precise s last ∧ List.Forall₂ (Q last) xs bs) (Stopped t o s) := by
  apply meetsMapM (R := Progress t o precise) (Q := Q) progressRefl progressTrans
    (fun path => kept (Session.advanceGrown path.path))
  intro a member s' path
  exact meetsMono (each a member s' (readyAfter ready path.path) (visitsPartsAfter visits path))
    (fun _ _ done => done) (stopsAfter path.path path.depth)

theorem paramAnswers {visit} {s : Session} (ready : Ready t o precise s)
    (visits : VisitsParts t o precise visit s) {a : TemplateArgument}
    (inside : ∀ ty, a.type? = some ty → ty.raw < t.types.size) :
    Meets s (expandParam visit a)
      (fun p last => Progress t o precise s last ∧
        ParamDescribes (Child t precise o.chasePointers last) a p) (Stopped t o s) := by
  cases a with
  | type ty isConst =>
    apply meetsThen (visits s ty ready (progressRefl s) (inside ty rfl))
    intro id last answered
    exact ⟨answered.progress, .type isConst answered.child⟩
  | integral ty value =>
    apply meetsThen (visits s ty ready (progressRefl s) (inside ty rfl))
    intro id last answered
    exact ⟨answered.progress, .integral value answered.child⟩
  | template name =>
    cases name with
    | template qualifiedName => exact ⟨progressRefl s, .template qualifiedName⟩
    | indirect kind => exact ⟨⟨_, rfl⟩, .refl, rfl⟩
  | unmodelled kind => exact ⟨⟨_, rfl⟩, .refl, rfl⟩

theorem parentAnswers {visit} {s : Session} (ready : Ready t o precise s)
    (visits : VisitsParts t o precise visit s) {b : Base} (inside : b.ty.raw < t.types.size) :
    Meets s (expandParent visit b)
      (fun p last => Progress t o precise s last ∧
        ParentDescribes (Child t precise o.chasePointers last) b p) (Stopped t o s) := by
  apply meetsThen (visits s b.ty ready (progressRefl s) inside)
  intro id last answered
  exact ⟨answered.progress, answered.child, rfl⟩

theorem memberAnswers {visit} {s : Session} (ready : Ready t o precise s)
    (visits : VisitsParts t o precise visit s) {f : Field} (inside : f.ty.raw < t.types.size) :
    Meets s (expandMember visit f)
      (fun m last => Progress t o precise s last ∧
        MemberDescribes (Child t precise o.chasePointers last) f m) (Stopped t o s) := by
  apply meetsThen (visits s f.ty ready (progressRefl s) inside)
  intro id last answered
  exact ⟨answered.progress, rfl, answered.child, rfl, rfl⟩

theorem paramsAnswer {visit} {s : Session} (ready : Ready t o precise s)
    (visits : VisitsParts t o precise visit s) {args : List TemplateArgument}
    (inside : ∀ a ∈ args, ∀ ty, a.type? = some ty → ty.raw < t.types.size) :
    Meets s (args.mapM (expandParam visit))
      (fun params last => Progress t o precise s last ∧
        List.Forall₂ (ParamDescribes (Child t precise o.chasePointers last)) args params)
      (Stopped t o s) := by
  apply partsAnswer (Q := fun last => ParamDescribes (Child t precise o.chasePointers last)) ?_
    ready visits ?_
  · intro a p s s' grown h
    exact paramDescribesKept (fun _ _ => childGrown grown) h
  · intro a member s' ready' visits'
    exact paramAnswers ready' visits' (inside a member)

theorem parentsAnswer {visit} {s : Session} (ready : Ready t o precise s)
    (visits : VisitsParts t o precise visit s) {bases : List Base}
    (inside : ∀ b ∈ bases, b.ty.raw < t.types.size) :
    Meets s (bases.mapM (expandParent visit))
      (fun parents last => Progress t o precise s last ∧
        List.Forall₂ (ParentDescribes (Child t precise o.chasePointers last)) bases parents)
      (Stopped t o s) := by
  apply partsAnswer (Q := fun last => ParentDescribes (Child t precise o.chasePointers last)) ?_
    ready visits ?_
  · intro b p s s' grown h
    exact ⟨childGrown grown h.child, h.offset⟩
  · intro b member s' ready' visits'
    exact parentAnswers ready' visits' (inside b member)

theorem membersAnswer {visit} {s : Session} (ready : Ready t o precise s)
    (visits : VisitsParts t o precise visit s) {fields : List Field}
    (inside : ∀ f ∈ fields, f.ty.raw < t.types.size) :
    Meets s (fields.mapM (expandMember visit))
      (fun members last => Progress t o precise s last ∧
        List.Forall₂ (MemberDescribes (Child t precise o.chasePointers last)) fields members)
      (Stopped t o s) := by
  apply partsAnswer (Q := fun last => MemberDescribes (Child t precise o.chasePointers last)) ?_
    ready visits ?_
  · intro f m s s' grown h
    exact ⟨h.name, childGrown grown h.child, h.offset, h.width⟩
  · intro f member s' ready' visits'
    exact memberAnswers ready' visits' (inside f member)

inductive Filled (t : Table) (o : Options) (precise : Prop) (s : Session) (ty : TypeId) (d : DeclId) :
    NodeId → Session → Prop
  | parts {old r last} (empty : (Node.record old).children = [])
      (built : Progress t o precise (s.enter ty (.record old)) last)
      (described : ClassDescribes t o (Child t precise o.chasePointers last) ty (.record d)
        (.record r)) :
      Filled t o precise s ty d ⟨s.graph.nodes.size⟩ (last.refill ⟨s.graph.nodes.size⟩ r)

theorem recordFills (sound : t.Sound) {visit} {s : Session} (ready : Ready t o precise s)
    {ty : TypeId} {e : TypeEntry} {d : DeclId} (fresh : s.lookup ty = none)
    (found : t.entry? ty = some e) (same : e.type = .record d) (defined : t.isComplete ty = .ok true)
    (visits : ∀ old, (Node.record old).children = [] →
      VisitsParts t o precise visit (s.enter ty (.record old))) :
    Meets s (expandRecord t visit ty d) (Filled t o precise s ty d) (Stopped t o s) := by
  obtain ⟨info, x, decl, mentions⟩ := Table.completeRecord sound found same defined
  obtain ⟨size, sized⟩ := Table.sizeInBitsAnswers sound (Table.entryInRange found)
  obtain ⟨align, aligned⟩ := Table.alignInBitsAnswers sound (Table.entryInRange found)
  have entering : Advance t o s (s.enter ty (.record (hollow info size align))) :=
    recordEnters fresh found same defined rfl
  apply meetsRun (expandRecordRuns decl sized aligned)
  have parts := visits (hollow info size align) rfl
  have ready₁ := readyAfter ready entering
  refine meetsBind (paramsAnswer ready₁ parts (fun a member ty same =>
    mentions ty (RecordDef.mentionsArgument member same))) (stopsAfter entering rfl) ?_
  rintro params s₂ ⟨first, args⟩
  have ready₂ := readyAfter ready₁ first.path
  refine meetsBind (parentsAnswer ready₂ (visitsPartsAfter parts first) (fun b member =>
    mentions b.ty (RecordDef.mentionsBase member)))
    (stopsAfter (advanceTrans entering first.path) first.depth) ?_
  rintro parents s₃ ⟨second, bases⟩
  have ready₃ := readyAfter ready₂ second.path
  have upTo₃ := progressTrans first second
  refine meetsBind (membersAnswer ready₃ (visitsPartsAfter parts upTo₃) (fun f member =>
    mentions f.ty (RecordDef.mentionsField member)))
    (stopsAfter (advanceTrans entering upTo₃.path) upTo₃.depth) ?_
  rintro members s₄ ⟨third, fields⟩
  have built := progressTrans upTo₃ third
  have last := Session.advanceGrown third.path
  have middle := Session.advanceGrown (advanceTrans second.path third.path)
  have described := ClassDescribes.record (o := o) decl sized aligned
    (args.imp (fun _ _ h => paramDescribesKept (fun _ _ => childGrown middle) h))
    (bases.imp (fun _ _ h => ⟨childGrown last h.child, h.offset⟩)) fields
  have first := Session.nodeEntered s ty (.record (hollow info size align))
  have node := ((Session.advanceGrown built.path).graph.node _ (Graph.nodeInside first)).trans first
  unfold Meets
  rw [fillRuns node]
  exact .parts rfl built described

theorem recordAnswers (sound : t.Sound) {followed visit} {s : Session}
    (ready : Ready t o precise s) {ty : TypeId} {e : TypeEntry} {d : DeclId}
    (fresh : s.lookup ty = none) (found : t.entry? ty = some e) (same : e.type = .record d)
    (defined : t.isComplete ty = .ok true)
    (visits : ∀ old, (Node.record old).children = [] →
      VisitsParts t o precise visit (s.enter ty (.record old))) :
    Meets s (expandRecord t visit ty d) (Answered t o precise followed s ty) (Stopped t o s) := by
  refine meetsMono (recordFills sound ready fresh found same defined visits) ?_
    (fun _ _ stopped => stopped)
  intro id last filled
  cases filled with
  | parts empty built described =>
    exact fillAnswers ready fresh found same defined empty built described

theorem enumAnswers (sound : t.Sound) {followed} {s : Session} {ty : TypeId} {e : TypeEntry}
    {d : DeclId} (fresh : s.lookup ty = none) (found : t.entry? ty = some e)
    (same : e.type = .enum d) (defined : t.isComplete ty = .ok true) :
    Meets s (expandEnum t o ty d) (Answered t o precise followed s ty) (Stopped t o s) := by
  obtain ⟨name, x, decl⟩ := Table.completeEnum sound found same defined
  obtain ⟨size, sized⟩ := Table.sizeInBitsAnswers sound (Table.entryInRange found)
  have plain : e.type.sugarTarget = none := by rw [same]; rfl
  have names : ∀ value label,
      (value, label) ∈ (EnumeratorMap.ofDeclared
        (if o.readEnumerators then x.enumerators else [])).entries ↔
      o.readEnumerators = true ∧ EnumeratorMap.firstName x.enumerators value = some label := by
    intro value label
    rw [EnumeratorMap.memOfDeclared]
    cases o.readEnumerators <;> simp [EnumeratorMap.firstName]
  unfold Meets
  rw [expandEnumRuns decl sized]
  exact enterAnswers fresh found plain defined rfl (by simp [Node.children])
    (fun _ => .complete found defined (same ▸ .enum decl sized names))

def Visits (t : Table) (o : Options) (precise : Prop) (visit : TypeId → Step NodeId)
    (room : Nat) : Prop :=
  ∀ s ty, Ready t o precise s → ty.raw < t.types.size → cost t s ty < room →
    Meets s (visit ty) (Answered t o precise (o.follows (s.depth + 1)) s ty) (Stopped t o s)

theorem followsBelow {depth : Nat} (deep : 0 < depth) : o.follows (depth + 1) = o.chasePointers := by
  have other : depth ≠ 0 := by omega
  simp [Options.follows, other]

theorem targetAnswers (sound : t.Sound) {visit room} (visits : Visits t o precise visit room)
    {s : Session} (ready : Ready t o precise s) {ty target : TypeId} {e : TypeEntry}
    (found : t.entry? ty = some e) (wraps : e.type.wrapped = some target)
    (roomy : cost t s ty ≤ room) :
    Meets s (visit target) (Answered t o precise (o.follows (s.depth + 1)) s target)
      (Stopped t o s) := by
  have falls := sound.wraps found wraps
  have inside := Table.entryInRange found
  have less : cost t s target < cost t s ty := Nat.add_lt_add_left falls _
  exact visits s target ready (Nat.lt_trans falls inside) (Nat.lt_of_lt_of_le less roomy)

theorem answeredAfter {followed} {s s' last : Session} {ty id} (progress : Progress t o precise s s')
    (h : Answered t o precise followed s' ty id last) : Answered t o precise followed s ty id last :=
  ⟨progressTrans progress h.progress, h.child⟩

/- The types below may have led back to the wrapper and given it a node. -/
theorem registerAnswers {followed} {s s' : Session} (ready : Ready t o precise s)
    {ty target : TypeId} {e : TypeEntry} {id : NodeId} {n : Node}
    (below : Answered t o precise o.chasePointers s target id s') (found : t.entry? ty = some e)
    (plain : e.type.sugarTarget = none) (defined : t.isComplete ty = .ok true)
    (own : n.isPrimitive = false) (whole : n.isIncomplete = false) (children : n.children = [id])
    (described : precise → ClassDescribes t o (Linked t o.chasePointers s') ty e.type n) :
    Meets s' (registerNew ty n) (Answered t o precise followed s ty) (Stopped t o s) := by
  unfold Meets
  cases looked : s'.lookup ty with
  | some old =>
    rw [registerNewKnown looked]
    exact answeredAfter below.progress (knownAnswers (readyAfter ready below.progress.path) looked)
  | none =>
    rw [registerNewFresh looked]
    refine answeredAfter below.progress (enterAnswers looked found plain (by rw [whole]; exact defined)
      own ?_ (fun sure => .complete found defined (described sure)))
    intro c member
    rw [children, List.mem_singleton] at member
    rw [member]
    exact below.child.inside

theorem wrapperAnswers (sound : t.Sound) {followed visit room}
    (visits : Visits t o precise visit room) {s : Session} (ready : Ready t o precise s)
    (deep : 0 < s.depth) {ty target : TypeId} {e : TypeEntry} (found : t.entry? ty = some e)
    (wraps : e.type.wrapped = some target) (plain : e.type.sugarTarget = none)
    (defined : t.isComplete ty = .ok true) (roomy : cost t s ty ≤ room) {make : NodeId → Node}
    (own : ∀ id, (make id).isPrimitive = false) (whole : ∀ id, (make id).isIncomplete = false)
    (children : ∀ id, (make id).children = [id])
    (described : ∀ {link : TypeId → NodeId → Prop} {id}, link target id →
      ClassDescribes t o link ty e.type (make id)) :
    Meets s (do let id ← visit target; registerNew ty (make id))
      (Answered t o precise followed s ty) (Stopped t o s) := by
  have below := targetAnswers sound visits ready found wraps roomy
  rw [followsBelow deep] at below
  apply meetsThen below
  intro id s' answered
  exact registerAnswers ready answered found plain defined (own id) (whole id) (children id)
    (fun sure => described (answered.child.linked sure))

theorem pointerAnswers (sound : t.Sound) {visit room} (visits : Visits t o precise visit room)
    {s : Session} (ready : Ready t o precise s) (deep : 0 < s.depth) {ty pointee : TypeId}
    {e : TypeEntry} (found : t.entry? ty = some e) (same : e.type = .pointer pointee)
    (defined : t.isComplete ty = .ok true) (roomy : cost t s ty ≤ room) :
    Meets s (expandPointer o visit ty pointee) (Answered t o precise (o.follows s.depth) s ty)
      (Stopped t o s) := by
  have plain : e.type.sugarTarget = none := by rw [same]; rfl
  unfold expandPointer
  apply meetsRun (getRuns _)
  cases follows : o.follows s.depth with
  | true =>
    rw [if_pos rfl]
    exact wrapperAnswers sound visits ready deep found (by rw [same]; rfl) plain defined roomy
      (fun _ => rfl) (fun _ => rfl) (fun _ => rfl) (fun link => same ▸ .pointer link)
  | false =>
    rw [if_neg Bool.false_ne_true]
    exact stubAnswers ready found (by simp [same, TypeClass.pointee]) plain

theorem referenceAnswers (sound : t.Sound) {visit room} (visits : Visits t o precise visit room)
    {s : Session} (ready : Ready t o precise s) (deep : 0 < s.depth) {ty pointee : TypeId}
    {e : TypeEntry} (found : t.entry? ty = some e) (same : e.type = .reference pointee)
    (defined : t.isComplete ty = .ok true) (roomy : cost t s ty ≤ room) :
    Meets s (expandReference o visit ty pointee) (Answered t o precise (o.follows s.depth) s ty)
      (Stopped t o s) := by
  have plain : e.type.sugarTarget = none := by rw [same]; rfl
  have below := targetAnswers sound visits ready found (by rw [same]; rfl) roomy
  rw [followsBelow deep] at below
  unfold expandReference
  apply meetsRun (getRuns _)
  cases follows : o.follows s.depth with
  | false =>
    rw [if_neg Bool.false_ne_true]
    exact stubAnswers ready found (by simp [same, TypeClass.pointee]) plain
  | true =>
    rw [if_pos rfl]
    apply meetsThen below
    intro id s' answered
    obtain ⟨n, node⟩ := Graph.nodeOfInside answered.child.inside
    have got : s'.graph.node id = .ok n := by simp [Graph.node, node]
    have shown : precise → t.isComplete pointee = .ok (!n.isIncomplete) := fun sure =>
      linkedComplete sound ((readyAfter ready answered.progress.path).coherent sure)
        (answered.child.linked sure) node
    have ends : ∀ m : Node, m.isPrimitive = false → m.isIncomplete = false → m.children = [id] →
        (precise → ClassDescribes t o (Linked t o.chasePointers s') ty e.type m) →
        Meets s' (registerNew ty m) (Answered t o precise true s ty) (Stopped t o s) :=
      fun m own whole children described =>
        registerAnswers ready answered found plain defined own whole children described
    apply meetsRun (getRuns _)
    rw [askOk got, pure_bind]
    split
    · exact ends _ rfl rfl rfl (fun sure => same ▸ .address (shown sure) (answered.child.linked sure))
    · rename_i other
      have whole : n.isIncomplete = false := by
        cases n <;> first | rfl | exact absurd rfl (other _)
      exact ends _ rfl rfl rfl (fun sure => same ▸ .reference (by rw [shown sure, whole]; rfl)
        (answered.child.linked sure))

theorem recordPartCost {s s' : Session} {ty part : TypeId} {e : TypeEntry} {d : DeclId}
    {old : Record} (fresh : s.lookup ty = none) (found : t.entry? ty = some e)
    (same : e.type = .record d) (defined : t.isComplete ty = .ok true)
    (empty : (Node.record old).children = [])
    (progress : Progress t o precise (s.enter ty (.record old)) s')
    (inside : part.raw < t.types.size) : cost t s' part < cost t s ty := by
  have entering : Advance t o s (s.enter ty (.record old)) :=
    recordEnters fresh found same defined empty
  have grown := Session.advanceGrown (advanceTrans entering progress.path)
  have entered : s'.lookup ty = some ⟨s.graph.nodes.size⟩ :=
    (Session.advanceGrown progress.path).memo _ _ (Session.lookupEntered s ty (.record old))
  exact costBelowRecord grown found same fresh entered inside

theorem visitsRecord {visit room} (visits : Visits t o precise visit room) {s : Session}
    (deep : 0 < s.depth) {ty : TypeId} {e : TypeEntry} {d : DeclId} (fresh : s.lookup ty = none)
    (found : t.entry? ty = some e) (same : e.type = .record d)
    (defined : t.isComplete ty = .ok true) (roomy : cost t s ty ≤ room) (old : Record)
    (empty : (Node.record old).children = []) :
    VisitsParts t o precise visit (s.enter ty (.record old)) := by
  intro s' part ready' progress inside
  have less := recordPartCost fresh found same defined empty progress inside
  have below := visits s' part ready' inside (Nat.lt_of_lt_of_le less roomy)
  have depth : s'.depth = s.depth := progress.depth
  rwa [depth, followsBelow deep] at below

theorem typeAnswers (sound : t.Sound) {visit room} (visits : Visits t o precise visit room)
    {s : Session} (ready : Ready t o precise s) (deep : 0 < s.depth) {ty : TypeId} {e : TypeEntry}
    (fresh : s.lookup ty = none) (found : t.entry? ty = some e)
    (plain : e.type.sugarTarget = none) (roomy : cost t s ty ≤ room) :
    Meets s (expandType t o visit ty e.type) (Answered t o precise (o.follows s.depth) s ty)
      (Stopped t o s) := by
  obtain ⟨complete, defined⟩ := Table.isCompleteAnswers sound (Table.entryInRange found)
  obtain ⟨name, named⟩ := Table.displayNameAnswers sound (Table.entryInRange found)
  have stops : ∀ cause, Meets s (refuse cause : Step NodeId)
      (Answered t o precise (o.follows s.depth) s ty) (Stopped t o s) :=
    fun cause => ⟨⟨cause, rfl⟩, .refl, rfl⟩
  unfold expandType
  rw [askOk defined, pure_bind]
  cases complete with
  | false =>
    rw [if_neg Bool.false_ne_true, askOk named, pure_bind]
    exact enterAnswers fresh found plain defined rfl (by simp [Node.children])
      (fun _ => .incomplete defined named)
  | true =>
    rw [if_pos rfl]
    cases same : e.type with
    | builtin kind =>
      cases measured : kind.primitive? o.model with
      | none =>
        simp only [measured]
        exact stops _
      | some p =>
        simp only [measured]
        exact shareForAnswers ready fresh found same measured defined
    | record d =>
      exact recordAnswers sound ready fresh found same defined
        (visitsRecord visits deep fresh found same defined roomy)
    | enum d => exact enumAnswers sound fresh found same defined
    | pointer pointee => exact pointerAnswers sound visits ready deep found same defined roomy
    | reference pointee => exact referenceAnswers sound visits ready deep found same defined roomy
    | array element length =>
      exact wrapperAnswers sound visits ready deep found (by rw [same]; rfl) plain defined roomy
        (fun _ => rfl) (fun _ => rfl) (fun _ => rfl) (fun link => same ▸ .array length link)
    | synonym form name target =>
      exact wrapperAnswers sound visits ready deep found (by rw [same]; rfl) plain defined roomy
        (fun _ => rfl) (fun _ => rfl) (fun _ => rfl) (fun link => same ▸ .synonym form name link)
    | sugar form target =>
      rw [same] at plain
      contradiction
    | dependentSpecialization => exact stops _
    | unmodelled category => exact stops _

theorem deeperAnswers {followed} {s : Session} {ty : TypeId} {x : Step NodeId}
    (h : Meets { s with depth := s.depth + 1 } x
      (Answered t o precise followed { s with depth := s.depth + 1 } ty)
      (Stopped t o { s with depth := s.depth + 1 })) :
    Meets s (deeper x) (Answered t o precise followed s ty) (Stopped t o s) := by
  have down : Advance t o s { s with depth := s.depth + 1 } := .single (.level _)
  have up : ∀ last : Session, Advance t o last { last with depth := last.depth - 1 } :=
    fun _ => .single (.level _)
  refine meetsDeeper (meetsMono h ?_ ?_)
  · intro id last answered
    have grown := Session.advanceGrown (up last)
    refine ⟨⟨advanceTrans down (advanceTrans answered.progress.path (up last)), ?_, ?_⟩,
      childGrown grown answered.child⟩
    · simp only [answered.progress.depth]
      omega
    · intro sure other id looked
      exact describedGrown grown (answered.progress.described sure) looked
  · intro e last stopped
    refine ⟨stopped.cause, advanceTrans down (advanceTrans stopped.path (up last)), ?_⟩
    simp only [stopped.depth]
    omega

theorem withAnswers (sound : t.Sound) {visit room} (visits : Visits t o precise visit room)
    {s : Session} (ready : Ready t o precise s) {ty : TypeId} (inside : ty.raw < t.types.size)
    (roomy : cost t s ty ≤ room) :
    Meets s (expandWith t o visit ty) (Answered t o precise (o.follows (s.depth + 1)) s ty)
      (Stopped t o s) := by
  cases looked : s.lookup ty with
  | some id =>
    unfold Meets
    rw [expandWithKnown looked]
    exact knownAnswers ready looked
  | none =>
    obtain ⟨e, found⟩ := Table.entryOfRange inside
    apply meetsRun (expandWithFresh looked found)
    cases step : e.type.sugarTarget with
    | none =>
      have down : Advance t o s { s with depth := s.depth + 1 } := .single (.level _)
      exact deeperAnswers (typeAnswers sound visits (readyAfter ready down) (Nat.succ_pos _) looked
        found step roomy)
    | some inner =>
      have under : ∀ id last, Answered t o precise (o.follows (s.depth + 1)) s inner id last →
          Answered t o precise (o.follows (s.depth + 1)) s ty id last := by
        intro id last answered
        exact ⟨answered.progress, answered.child.inside, fun sure =>
          linkedSugar found step (answered.child.linked sure)⟩
      exact meetsMono (targetAnswers sound visits ready found (sugarWraps step) roomy) under
        (fun _ _ stopped => stopped)

theorem expandAnswers (sound : t.Sound) (room : Nat) :
    Visits t o precise (Expansion.expand t o room) room := by
  induction room with
  | zero =>
    intro s ty ready inside roomy
    exact absurd roomy (Nat.not_lt_zero _)
  | succ room ih =>
    intro s ty ready inside roomy
    -- one level is used up here, and every type below costs at least one less
    exact withAnswers sound ih ready inside (Nat.le_of_lt_succ roomy)

end ObjectLayout.Expansion
