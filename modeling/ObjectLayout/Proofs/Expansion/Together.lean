import ObjectLayout.Proofs.Expansion.Outcome

/-! Two steps side by side. They go together if from sessions that correspond they end alike: with the
same answer or the same stop, in sessions that correspond again. What it is to correspond is left
open; the rules here are those of the order of steps, and what follows for an expansion once the
smallest steps go together. -/
namespace ObjectLayout.Expansion

variable {α β : Type} {R : Session → Session → Prop}

inductive Alike (R : Session → Session → Prop) :
    EStateM.Result Stop Session α → EStateM.Result Stop Session α → Prop
  | ok (a : α) {s r} (h : R s r) : Alike R (.ok a s) (.ok a r)
  | error (e : Stop) {s r} (h : R s r) : Alike R (.error e s) (.error e r)

def Together (R : Session → Session → Prop) (x y : Step α) : Prop :=
  ∀ s r, R s r → Alike R (x s) (y r)

theorem togetherPure (a : α) : Together R (pure a) (pure a) := fun _ _ h => .ok a h

theorem togetherRefuse (cause : Unsupported) :
    Together R (refuse cause : Step α) (refuse cause) := fun _ _ h => .error _ h

theorem togetherAsk (answer : Except Fault α) : Together R (ask answer) (ask answer) := by
  cases answer with
  | ok a => exact togetherPure a
  | error f => exact fun _ _ h => .error _ h

theorem togetherBind {x y : Step α} {f g : α → Step β} (first : Together R x y)
    (next : ∀ a, Together R (f a) (g a)) : Together R (x >>= f) (y >>= g) := by
  intro s r h
  have both := first s r h
  simp only [bind, EStateM.bind]
  generalize x s = before, y r = after at both ⊢
  cases both with
  | ok a related => exact next a _ _ related
  | error e related => exact .error e related

theorem togetherGet {f g : Session → Step α} (next : ∀ s r, R s r → Alike R (f s s) (g r r)) :
    Together R (get >>= f) (get >>= g) := next

theorem togetherMapM {f g : α → Step β} (each : ∀ a, Together R (f a) (g a)) (xs : List α) :
    Together R (xs.mapM f) (xs.mapM g) := by
  induction xs with
  | nil =>
    simp only [List.mapM_nil]
    exact togetherPure _
  | cons a rest ih =>
    simp only [List.mapM_cons]
    exact togetherBind (each a) (fun b => togetherBind ih (fun bs => togetherPure (b :: bs)))

def Level (R : Session → Session → Prop) : Prop :=
  ∀ {s r} (move : Nat → Nat), R s r →
    R { s with depth := move s.depth } { r with depth := move r.depth }

theorem togetherDeeper (level : Level R) {x y : Step α} (h : Together R x y) :
    Together R (deeper x) (deeper y) := by
  intro s r related
  have both := h _ _ (level (· + 1) related)
  simp only [deeper]
  generalize x { s with depth := s.depth + 1 } = before,
    y { r with depth := r.depth + 1 } = after at both ⊢
  cases both with
  | ok a below => exact .ok a (level (· - 1) below)
  | error e below => exact .error e (level (· - 1) below)

theorem togetherNew {ty : TypeId} (known : ∀ {s r}, R s r → s.lookup ty = r.lookup ty) {n m : Node}
    (allocated : Together R (allocate n) (allocate m))
    (registered : ∀ id, Together R (register ty id) (register ty id)) :
    Together R (registerNew ty n) (registerNew ty m) := by
  intro s r h
  rw [registerNewRuns, registerNewRuns, known h]
  cases r.lookup ty with
  | some id => exact togetherPure id s r h
  | none => exact togetherBind allocated registered s r h

/-- Whatever the smallest steps keep, for as much of the sessions as an expansion looks at. What is
allocated for an enum is left to a step of its own. -/
structure Accord (R : Session → Session → Prop) : Prop where
  level : Level R
  depth : ∀ {s r}, R s r → s.depth = r.depth
  node : ∀ {s r}, R s r → ∀ id,
    (s.graph.node id).map Node.isIncomplete = (r.graph.node id).map Node.isIncomplete
  allocate : ∀ n, n.kind ≠ .enum → Together R (allocate n) (allocate n)
  primitive : ∀ kind, Together R (primitive kind) (primitive kind)
  register : ∀ ty id, Together R (register ty id) (register ty id)
  fill : ∀ id f, Together R (fill id f) (fill id f)

theorem askIncomplete (answer : Except Fault Node) (x y : Step α) :
    (do match ← ask answer with
        | .incomplete _ => x
        | _ => y) = (do if ← ask (answer.map Node.isIncomplete) then x else y) := by
  cases answer with
  | error f => rfl
  | ok n => cases n <;> rfl

theorem expandReferenceAsks (o : Options) (visit : TypeId → Step NodeId) (ty pointee : TypeId) :
    expandReference o visit ty pointee = (do
      if o.follows (← get).depth then
        let id ← visit pointee
        if ← ask (((← get).graph.node id).map Node.isIncomplete) then registerNew ty (.pointer id)
        else registerNew ty (.reference id)
      else primitive .stubbedPointer) := by
  unfold expandReference
  apply bind_congr
  intro s
  split
  · apply bind_congr
    intro id
    apply bind_congr
    intro s
    exact askIncomplete _ _ _
  · rfl

section
variable {visit more : TypeId → Step NodeId} (visits : ∀ ty, Together R (visit ty) (more ty))
include visits

theorem togetherParam (a : TemplateArgument) :
    Together R (expandParam visit a) (expandParam more a) := by
  cases a with
  | type ty isConst => exact togetherBind (visits ty) (fun id => togetherPure _)
  | integral ty value => exact togetherBind (visits ty) (fun id => togetherPure _)
  | template name =>
    cases name with
    | template qualifiedName => exact togetherPure _
    | indirect kind => exact togetherRefuse _
  | unmodelled kind => exact togetherRefuse _

theorem togetherParent (b : Base) : Together R (expandParent visit b) (expandParent more b) :=
  togetherBind (visits b.ty) (fun _ => togetherPure _)

theorem togetherMember (f : Field) : Together R (expandMember visit f) (expandMember more f) :=
  togetherBind (visits f.ty) (fun _ => togetherPure _)

variable (accord : Accord R) {t : Table} {o other : Options}
include accord

theorem togetherRecord (ty : TypeId) (d : DeclId) :
    Together R (expandRecord t visit ty d) (expandRecord t more ty d) := by
  apply togetherBind (togetherAsk _)
  intro info
  apply togetherBind (togetherAsk _)
  intro size
  apply togetherBind (togetherAsk _)
  intro align
  apply togetherBind (accord.allocate _ (by nofun))
  intro allocated
  apply togetherBind (accord.register ty allocated)
  intro id
  apply togetherBind (togetherAsk _)
  intro args
  apply togetherBind (togetherMapM (togetherParam visits) _)
  intro params
  apply togetherBind (togetherAsk _)
  intro bases
  apply togetherBind (togetherMapM (togetherParent visits) _)
  intro parents
  apply togetherBind (togetherAsk _)
  intro fields
  apply togetherBind (togetherMapM (togetherMember visits) _)
  intro members
  apply togetherBind (togetherAsk _)
  intro methods
  exact togetherBind (accord.fill id _) (fun _ => togetherPure id)

section
variable {ty : TypeId}
  (registers : ∀ n, n.kind ≠ .enum → Together R (registerNew ty n) (registerNew ty n))
include registers

omit accord in
theorem togetherWrapper (target : TypeId) {make : NodeId → Node} (plain : ∀ id, (make id).kind ≠ .enum) :
    Together R (do let id ← visit target; registerNew ty (make id))
      (do let id ← more target; registerNew ty (make id)) :=
  togetherBind (visits target) (fun id => registers (make id) (plain id))

variable (chases : other.chasePointers = o.chasePointers)
include chases

theorem togetherPointer (pointee : TypeId) :
    Together R (expandPointer o visit ty pointee) (expandPointer other more ty pointee) := by
  apply togetherGet
  intro s r h
  rw [Options.follows, Options.follows, chases, accord.depth h]
  split
  · exact togetherWrapper visits registers pointee (by nofun) s r h
  · exact accord.primitive _ s r h

theorem togetherReference (pointee : TypeId) :
    Together R (expandReference o visit ty pointee) (expandReference other more ty pointee) := by
  rw [expandReferenceAsks, expandReferenceAsks]
  apply togetherGet
  intro s r h
  rw [Options.follows, Options.follows, chases, accord.depth h]
  split
  · refine togetherBind (visits pointee) (fun id => togetherGet ?_) s r h
    intro s r h
    rw [accord.node h id]
    refine togetherBind (togetherAsk _) (fun incomplete => ?_) s r h
    split
    · exact registers _ (by nofun)
    · exact registers _ (by nofun)
  · exact accord.primitive _ s r h

end

theorem togetherType {ty : TypeId} {type : TypeClass} (chases : other.chasePointers = o.chasePointers)
    (model : other.model = o.model)
    (enums : ∀ d, Together R (expandEnum t o ty d) (expandEnum t other ty d))
    (registers : (∀ kind, type ≠ .builtin kind) → ∀ n, n.kind ≠ .enum →
      Together R (registerNew ty n) (registerNew ty n)) :
    Together R (expandType t o visit ty type) (expandType t other more ty type) := by
  apply togetherBind (togetherAsk _)
  intro complete
  cases complete with
  | false =>
    apply togetherBind (togetherAsk _)
    intro name
    exact togetherBind (accord.allocate _ (by nofun)) (fun id => accord.register ty id)
  | true =>
    rw [if_pos rfl, if_pos rfl]
    cases type with
    | builtin kind =>
      simp only [model]
      cases kind.primitive? o.model with
      | none => exact togetherRefuse _
      | some p => exact togetherBind (accord.primitive p) (fun id => accord.register ty id)
    | record d => exact togetherRecord visits accord ty d
    | enum d => exact enums d
    | pointer pointee => exact togetherPointer visits accord (registers nofun) chases pointee
    | reference pointee => exact togetherReference visits accord (registers nofun) chases pointee
    | array element length =>
      exact togetherWrapper visits (registers nofun) element (by nofun)
    | synonym form name target =>
      exact togetherWrapper visits (registers nofun) target (by nofun)
    | sugar form target => exact visits target
    | dependentSpecialization => exact togetherRefuse _
    | unmodelled category => exact togetherRefuse _

end

end ObjectLayout.Expansion
