import ObjectLayout.Proofs.Build.Requests
import ObjectLayout.Proofs.Session.Again
import ObjectLayout.Proofs.Session.Deletion
import ObjectLayout.Proofs.Session.Independence

/-! Requests do not depend on one another. Each ends as it would end in a new session; the roots of the
graph are what was built, in this order, and requests that fail might as well not have been made. -/
namespace ObjectLayout.Build

open Session

variable {t : Table} {o : Options}

/-- How the request for a name ends, told from the table and from a new session. -/
inductive Verdict (t : Table) (o : Options) (name : String) : End → Prop
  | unknown (absent : ∀ root ∈ t.roots, root.name ≠ name) : Verdict t o name (.error (.unknown name))
  | refused {ty cause r} (found : t.lookup name = some ty)
      (alone : (Session.start .empty).expand t o ty = .ok (.error cause, r)) :
      Verdict t o name (.error (.unsupported name cause))
  | built {ty top r} (id : NodeId) (found : t.lookup name = some ty)
      (alone : (Session.start .empty).expand t o ty = .ok (.ok top, r)) : Verdict t o name (.ok ⟨name, id⟩)

theorem endsWhole (sound : t.Sound) {s s' : Session} (h : Whole t o s) {name : String} {e : End}
    (ends : Ends t o s name e s') : Whole t o s' := by
  cases ends with
  | unknown absent => exact h
  | refused found ended => exact answerWhole sound h ended
  | built found ended => exact answerWhole sound h ended

theorem requestsWhole (sound : t.Sound) {s last : Session} {names : List String} {ends : List End}
    (requests : Requests t o s names ends last) (h : Whole t o s) : Whole t o last :=
  requestsKeep (P := Whole t o) (fun _ _ _ _ h ends => endsWhole sound h ends) requests h

theorem endsMemo (sound : t.Sound) {s s' : Session} (h : Whole t o s) {name : String} {e : End}
    (ends : Ends t o s name e s') {ty : TypeId} {id : NodeId} (looked : s.lookup ty = some id) :
    s'.lookup ty = some id := by
  cases ends with
  | unknown absent => exact looked
  | refused found ended => exact answerMemo sound h.settled.ready ended looked
  | built found ended => exact answerMemo sound h.settled.ready ended looked

theorem aloneAnswers (sound : t.Sound) {name : String} {ty : TypeId}
    (found : t.lookup name = some ty) : ∃ b r r',
      (Session.start .empty).answer t o (.expandRoot ty) = .ok (b, r) ∧
      (Session.start .empty).expand t o ty = .ok (b, r') := by
  have inside : (Call.expandRoot ty).ty.raw < t.types.size := lookupInside sound found
  obtain ⟨b, r, ended, _⟩ := callEnds sound (emptySettled (o := o)).ready inside
  obtain ⟨r', alone, _⟩ := answerExpands ended
  exact ⟨b, r, r', ended, alone⟩

theorem endsAlone (sound : t.Sound) {s s' : Session} (h : Whole t o s) {name : String} {e : End}
    (ends : Ends t o s name e s') : Verdict t o name e := by
  cases ends with
  | unknown absent => exact .unknown (fun root held => lookupMissing absent held)
  | refused found ended =>
    obtain ⟨b, r, r', new, alone⟩ := aloneAnswers sound found
    rcases answersAligned sound h.explored ended new with ⟨cause, first, rfl⟩ | ⟨id, top, first, _⟩
    · cases first
      exact .refused found alone
    · contradiction
  | @built ty id s' found ended =>
    obtain ⟨b, r, r', new, alone⟩ := aloneAnswers sound found
    rcases answersAligned sound h.explored ended new with ⟨cause, first, _⟩ | ⟨_, top, _, rfl⟩
    · contradiction
    · exact .built id found alone

theorem requestsAlone (sound : t.Sound) {s last : Session} {names : List String} {ends : List End}
    (requests : Requests t o s names ends last) (h : Whole t o s) :
    List.Forall₂ (Verdict t o) names ends := by
  induction requests with
  | nil s => exact .nil
  | cons head tail ih => exact .cons (endsAlone sound h head) (ih (endsWhole sound h head))

theorem endsRoots (sound : t.Sound) {s s' : Session} (h : Whole t o s) {name : String} {e : End}
    (ends : Ends t o s name e s') :
    s'.graph.roots = s.graph.roots ++ (built [e]).map NamedNode.node := by
  cases ends with
  | unknown absent => exact (List.append_nil _).symm
  | refused found ended =>
    rw [(refusalAhead sound h.settled.ready ended).graph]
    exact (List.append_nil _).symm
  | built found ended =>
    obtain ⟨last, expanded, rfl⟩ := answerExpands ended
    obtain ⟨a, final, again, outcome⟩ := expandOutcome sound h.settled.ready (lookupInside sound found)
    cases expanded.symm.trans again
    cases outcome with
    | node path described child =>
      exact congrArg (· ++ _) (advanceGrown path).graph.roots

theorem requestsRoots (sound : t.Sound) {s last : Session} {names : List String} {ends : List End}
    (requests : Requests t o s names ends last) (h : Whole t o s) :
    last.graph.roots = s.graph.roots ++ (built ends).map NamedNode.node := by
  induction requests with
  | nil s => exact (List.append_nil _).symm
  | @cons s s' last name rest e ends head tail ih =>
    rw [ih (endsWhole sound h head), endsRoots sound h head, List.append_assoc, ← List.map_append,
      ← builtAppend]
    rfl

def Recorded (t : Table) (s : Session) (root : NamedNode) : Prop :=
  ∃ ty last, t.lookup root.name = some ty ∧ t.Desugars ty last ∧ s.lookup last = some root.node

theorem requestsRecorded (sound : t.Sound) {s last : Session} {names : List String} {ends : List End}
    (requests : Requests t o s names ends last) (h : Whole t o s) :
    (∀ ty id, s.lookup ty = some id → last.lookup ty = some id) ∧
      ∀ root ∈ built ends, Recorded t last root := by
  induction requests with
  | nil s => exact ⟨fun _ _ looked => looked, nofun⟩
  | @cons s s' last name rest e ends head tail ih =>
    obtain ⟨kept, later⟩ := ih (endsWhole sound h head)
    refine ⟨fun ty id looked => kept ty id (endsMemo sound h head looked), ?_⟩
    intro root member
    have split : root ∈ built [e] ++ built ends := by rwa [← builtAppend]
    rcases List.mem_append.mp split with here | there
    · cases head with
      | unknown absent | refused found ended => contradiction
      | built found ended =>
        obtain ⟨last, path, looked⟩ := answerLookup sound h ended
        cases List.mem_singleton.mp here
        exact ⟨_, last, found, path, kept _ _ looked⟩
    · exact later root there

/- What is built under a name is the node of the type that the name is exported for. -/
def Stands (t : Table) (o : Options) (s : Session) (root : NamedNode) : Prop :=
  ∃ ty last n, t.lookup root.name = some ty ∧ t.Desugars ty last ∧ s.lookup last = some root.node ∧
    s.graph.node? root.node = some n ∧ Describes t o (Linked t o.chasePointers s) last n

theorem recordedStands {s : Session} (settled : Settled t o True s) {root : NamedNode}
    (recorded : Recorded t s root) : Stands t o s root := by
  obtain ⟨ty, last, found, path, looked⟩ := recorded
  obtain ⟨n, node, described⟩ := settled.described trivial last root.node looked
  exact ⟨ty, last, n, found, path, looked, node, described⟩

theorem recordedUnique {s : Session} {a b : NamedNode} (first : Recorded t s a) (second : Recorded t s b)
    (same : a.name = b.name) : a.node = b.node := by
  obtain ⟨ty, last, found, path, looked⟩ := first
  obtain ⟨ty', last', found', path', looked'⟩ := second
  rw [same] at found
  cases found.symm.trans found'
  cases Table.desugarsUnique path path'
  exact Option.some.inj (looked.symm.trans looked')

theorem rootFound {a : Archive} (unique : ∀ x ∈ a.roots, ∀ y ∈ a.roots, x.name = y.name → x.node = y.node)
    {root : NamedNode} (member : root ∈ a.roots) : a.root? root.name = some root.node := by
  unfold Archive.root?
  cases found : a.roots.find? (fun other => other.name = root.name) with
  | none =>
    have missing := List.find?_eq_none.mp found root member
    exact absurd (decide_eq_true rfl) missing
  | some other =>
    have same : other.name = root.name := by simpa using List.find?_some found
    exact congrArg some (unique other (List.mem_of_find?_eq_some found) root member same)

theorem requestsKept (sound : t.Sound) {s last : Session} {names : List String} {ends : List End}
    (requests : Requests t o s names ends last) (h : Whole t o s) {r : Session} (ahead : Ahead t o s r)
    (k : Whole t o r) :
    ∃ final, Requests t o r ((built ends).map NamedNode.name) ((built ends).map .ok) final ∧
      Ahead t o last final := by
  induction requests generalizing r with
  | nil s => exact ⟨r, .nil r, ahead⟩
  | cons head tail ih =>
    have after := endsWhole sound h head
    cases head with
    | unknown absent => exact ih after ahead k
    | refused found ended =>
      exact ih after (aheadTrans (refusalAhead sound h.settled.ready ended) ahead) k
    | built found ended =>
      obtain ⟨r', answer, related⟩ := answerAhead sound ahead h.settled.ready k.settled.ready ended
      obtain ⟨final, others, last⟩ := ih after related (answerWhole sound k answer)
      exact ⟨final, .cons (.built found answer) others, last⟩

theorem builtBack (roots : List NamedNode) : built (roots.map .ok) = roots := by
  induction roots with
  | nil => rfl
  | cons root rest ih => exact congrArg (root :: ·) ih

theorem failedBack (roots : List NamedNode) : failed (roots.map .ok) = [] := by
  induction roots with
  | nil => rfl
  | cons root rest ih => exact ih

/-- Every requested name has one end, in the order of the requests, and ends as it would alone. What was
built gives the roots, each the node of its type and found again under its name, and what has failed the
failures; requesting only the names that were built gives the same archive. -/
theorem buildIndependent {requested : List String} (valid : t.validate = .ok ()) :
    ∃ b ends, t.build o requested = .ok b ∧
      List.Forall₂ (Verdict t o) (names t requested) ends ∧
      b.archive.roots = built ends ∧ b.failures = failed ends ∧
      b.archive.graph.roots = b.archive.roots.map NamedNode.node ∧
      (∀ root ∈ b.archive.roots, Stands t o b.session root) ∧
      (∀ root ∈ b.archive.roots, b.archive.root? root.name = some root.node) ∧
      (b.archive.roots ≠ [] → ∃ c, t.build o (b.archive.roots.map NamedNode.name) = .ok c ∧
        c.archive = b.archive ∧ c.failures = []) := by
  have sound := Table.validSound valid
  have start : Whole t o (.start .empty) := emptyWhole
  obtain ⟨ends, last, requests, ran⟩ := buildRequests (o := o) sound requested
  have recorded := (requestsRecorded sound requests start).2
  have whole := requestsWhole sound requests start
  refine ⟨_, ends, ran, requestsAlone sound requests start, rfl, rfl, ?_, ?_, ?_, ?_⟩
  · exact requestsRoots sound requests start
  · exact fun root member => recordedStands whole.settled (recorded root member)
  · intro root member
    exact rootFound (fun a first b second same =>
      recordedUnique (recorded a first) (recorded b second) same) member
  · intro some
    obtain ⟨final, kept, ahead⟩ := requestsKept sound requests start (aheadRefl _) start
    have asked : (built ends).map NamedNode.name ≠ [] := fun none => some (List.map_eq_nil_iff.mp none)
    rw [← namesGiven (t := t) asked] at kept
    have again := requestsBuild kept
    rw [builtBack, failedBack] at again
    exact ⟨_, again, congrArg (Archive.mk (built ends)) ahead.graph.symm, rfl⟩

theorem sampleBuildIndependent :
    ∃ b ends, sampleTable.build sampleOptions ["Wide", "Ring", "Hidden", "Ring"] = .ok b ∧
      List.Forall₂ (Verdict sampleTable sampleOptions)
        (names sampleTable ["Wide", "Ring", "Hidden", "Ring"]) ends ∧
      b.archive.roots = built ends ∧ b.failures = failed ends ∧
      b.archive.graph.roots = b.archive.roots.map NamedNode.node ∧
      (∀ root ∈ b.archive.roots, Stands sampleTable sampleOptions b.session root) ∧
      (∀ root ∈ b.archive.roots, b.archive.root? root.name = some root.node) ∧
      (b.archive.roots ≠ [] → ∃ c,
        sampleTable.build sampleOptions (b.archive.roots.map NamedNode.name) = .ok c ∧
          c.archive = b.archive ∧ c.failures = []) :=
  buildIndependent sampleValid

end ObjectLayout.Build
