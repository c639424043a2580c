import ObjectLayout.Build
import ObjectLayout.Proofs.Session.Ending

/-! A build asks one session for one name after the other. Every request comes to an end, and what is
built and what has failed are the ends of the requests, each in their order. -/
namespace ObjectLayout.Build

open Session

variable {t : Table} {o : Options} {precise : Prop}

abbrev End := Except RootFailure NamedNode

def built (ends : List End) : List NamedNode := ends.filterMap Except.toOption

def failure? : End → Option RootFailure
  | .ok _ => none
  | .error f => some f

def failed (ends : List End) : List RootFailure := ends.filterMap failure?

inductive Ends (t : Table) (o : Options) (s : Session) (name : String) : End → Session → Prop
  | unknown (absent : t.lookup name = none) : Ends t o s name (.error (.unknown name)) s
  | refused {ty cause s'} (found : t.lookup name = some ty)
      (ended : s.answer t o (.expandRoot ty) = .ok (.error cause, s')) :
      Ends t o s name (.error (.unsupported name cause)) s'
  | built {ty id s'} (found : t.lookup name = some ty)
      (ended : s.answer t o (.expandRoot ty) = .ok (.ok id, s')) : Ends t o s name (.ok ⟨name, id⟩) s'

inductive Requests (t : Table) (o : Options) : Session → List String → List End → Session → Prop
  | nil (s) : Requests t o s [] [] s
  | cons {s s' last name rest e ends} (head : Ends t o s name e s')
      (tail : Requests t o s' rest ends last) : Requests t o s (name :: rest) (e :: ends) last

theorem requestsKeep {P : Session → Prop} (each : ∀ s name e s', P s → Ends t o s name e s' → P s')
    {s last : Session} {names : List String} {ends : List End}
    (requests : Requests t o s names ends last) (start : P s) : P last := by
  induction requests with
  | nil s => exact start
  | cons head tail ih => exact ih (each _ _ _ _ start head)

theorem lookupExported {name : String} {ty : TypeId} (found : t.lookup name = some ty) :
    ∃ root ∈ t.roots, root.name = name ∧ root.ty = ty := by
  obtain ⟨root, held, same⟩ := Option.map_eq_some_iff.mp found
  exact ⟨root, List.mem_of_find?_eq_some held, by simpa using List.find?_some held, same⟩

theorem lookupMissing {name : String} (absent : t.lookup name = none) {root : NamedType}
    (held : root ∈ t.roots) : root.name ≠ name := by
  have missing := List.find?_eq_none.mp (Option.map_eq_none_iff.mp absent) root held
  simpa using missing

theorem lookupInside (sound : t.Sound) {name : String} {ty : TypeId}
    (found : t.lookup name = some ty) : ty.raw < t.types.size := by
  obtain ⟨root, held, _, same⟩ := lookupExported found
  exact same ▸ sound.roots root held

theorem requestEnds (sound : t.Sound) {s : Session} (ready : Expansion.Ready t o precise s)
    (name : String) : ∃ e s', Ends t o s name e s' := by
  cases found : t.lookup name with
  | none => exact ⟨_, s, .unknown found⟩
  | some ty =>
    have inside : (Call.expandRoot ty).ty.raw < t.types.size := lookupInside sound found
    obtain ⟨a, s', ended, _⟩ := callEnds sound ready inside
    cases a with
    | error cause => exact ⟨_, s', .refused found ended⟩
    | ok id => exact ⟨_, s', .built found ended⟩

theorem endsSettled (sound : t.Sound) {s s' : Session} (settled : Settled t o precise s)
    {name : String} {e : End} (h : Ends t o s name e s') : Settled t o precise s' := by
  cases h with
  | unknown absent => exact settled
  | refused found ended => exact answerSettled sound settled ended
  | built found ended => exact answerSettled sound settled ended

theorem requestsEnd (sound : t.Sound) {s : Session} (settled : Settled t o precise s)
    (names : List String) : ∃ ends last, Requests t o s names ends last := by
  induction names generalizing s with
  | nil => exact ⟨[], s, .nil s⟩
  | cons name rest ih =>
    obtain ⟨e, s', head⟩ := requestEnds sound settled.ready name
    obtain ⟨ends, last, tail⟩ := ih (endsSettled sound settled head)
    exact ⟨e :: ends, last, .cons head tail⟩

theorem addEnds {b : Build} {name : String} {e : End} {s' : Session}
    (h : Ends t o b.session name e s') :
    add t o b name = .ok ⟨s', b.roots ++ built [e], b.failures ++ failed [e]⟩ := by
  cases h with
  | unknown absent => simp [add, absent, built, failed, failure?, Except.toOption]
  | refused found ended =>
    simp only [answer] at ended
    simp [add, found, ended, built, failed, failure?, Except.toOption]
  | built found ended =>
    simp only [answer] at ended
    simp [add, found, ended, Build.built, failed, failure?, Except.toOption]

theorem builtAppend (xs ys : List End) : built (xs ++ ys) = built xs ++ built ys :=
  List.filterMap_append

theorem failedAppend (xs ys : List End) : failed (xs ++ ys) = failed xs ++ failed ys :=
  List.filterMap_append

theorem foldRequests {s last : Session} {names : List String} {ends : List End}
    (requests : Requests t o s names ends last) (roots : List NamedNode)
    (failures : List RootFailure) :
    names.foldlM (add t o) ⟨s, roots, failures⟩ =
      .ok ⟨last, roots ++ built ends, failures ++ failed ends⟩ := by
  induction requests generalizing roots failures with
  | nil s => simp [built, failed, pure, Except.pure]
  | @cons s s' last name rest e ends head tail ih =>
    rw [List.foldlM_cons, addEnds head]
    refine (ih _ _).trans ?_
    simp only [List.append_assoc, ← builtAppend, ← failedAppend, List.singleton_append]

theorem requestsBuild {requested : List String} {ends : List End} {last : Session}
    (requests : Requests t o (.start .empty) (names t requested) ends last) :
    t.build o requested = .ok ⟨last, built ends, failed ends⟩ :=
  foldRequests requests [] []

theorem buildRequests (sound : t.Sound) (requested : List String) :
    ∃ ends last, Requests t o (.start .empty) (names t requested) ends last ∧
      t.build o requested = .ok ⟨last, built ends, failed ends⟩ := by
  obtain ⟨ends, last, requests⟩ := requestsEnd sound emptySettled (names t requested)
  exact ⟨ends, last, requests, requestsBuild requests⟩

theorem namesGiven {requested : List String} (some : requested ≠ []) :
    names t requested = requested := by
  simp [names, some]

end ObjectLayout.Build
