import ObjectLayout.Proofs.Expansion.Answers

/-! The fuel of an expansion bounds its depth and nothing else. A step that has less of it either
runs out or does what the other one does, so an expansion that ends does so with any more fuel. -/
namespace ObjectLayout.Expansion

def Below {α : Type} (x y : Step α) : Prop :=
  ∀ s, (∃ last, x s = .error (.fault .endless) last) ∨ x s = y s

variable {α β : Type}

theorem belowRefl (x : Step α) : Below x x := fun _ => .inr rfl

theorem belowTrans {x y z : Step α} (first : Below x y) (second : Below y z) : Below x z := by
  intro s
  rcases first s with ⟨last, ended⟩ | same
  · exact .inl ⟨last, ended⟩
  · rw [same]
    exact second s

theorem belowBind {x y : Step α} {f g : α → Step β} (first : Below x y)
    (next : ∀ a, Below (f a) (g a)) : Below (x >>= f) (y >>= g) := by
  intro s
  simp only [bind, EStateM.bind]
  rcases first s with ⟨last, ended⟩ | same
  · exact .inl ⟨last, by simp only [ended]⟩
  · rw [same]
    cases y s with
    | ok a s' => exact next a s'
    | error e s' => exact .inr rfl

theorem belowNext {x : Step α} {f g : α → Step β} (next : ∀ a, Below (f a) (g a)) :
    Below (x >>= f) (x >>= g) :=
  belowBind (belowRefl x) next

theorem belowFirst {x y : Step α} {f : α → Step β} (first : Below x y) :
    Below (x >>= f) (y >>= f) :=
  belowBind first (fun a => belowRefl (f a))

theorem belowMapM {f g : α → Step β} (each : ∀ a, Below (f a) (g a)) (xs : List α) :
    Below (xs.mapM f) (xs.mapM g) := by
  induction xs with
  | nil =>
    simp only [List.mapM_nil]
    exact belowRefl _
  | cons a rest ih =>
    simp only [List.mapM_cons]
    exact belowBind (each a) (fun b => belowFirst ih)

theorem belowDeeper {x y : Step α} (h : Below x y) : Below (deeper x) (deeper y) := by
  intro s
  simp only [deeper]
  rcases h { s with depth := s.depth + 1 } with ⟨last, ended⟩ | same
  · exact .inl ⟨{ last with depth := last.depth - 1 }, by simp only [ended]⟩
  · exact .inr (by rw [same])

section
variable {t : Table} {o : Options} {visit more : TypeId → Step NodeId}
  (below : ∀ ty, Below (visit ty) (more ty))
include below

theorem belowParam (a : TemplateArgument) : Below (expandParam visit a) (expandParam more a) := by
  cases a with
  | type ty isConst => exact belowFirst (below ty)
  | integral ty value => exact belowFirst (below ty)
  | template name => cases name <;> exact belowRefl _
  | unmodelled kind => exact belowRefl _

theorem belowRecord (ty : TypeId) (d : DeclId) :
    Below (expandRecord t visit ty d) (expandRecord t more ty d) := by
  have parents : ∀ b, Below (expandParent visit b) (expandParent more b) :=
    fun b => belowFirst (below b.ty)
  have members : ∀ f, Below (expandMember visit f) (expandMember more f) :=
    fun f => belowFirst (below f.ty)
  apply belowNext
  intro info
  apply belowNext
  intro size
  apply belowNext
  intro align
  apply belowNext
  intro allocated
  apply belowNext
  intro id
  apply belowNext
  intro args
  apply belowBind (belowMapM (belowParam below) _)
  intro params
  apply belowNext
  intro bases
  apply belowBind (belowMapM parents _)
  intro parents
  apply belowNext
  intro fields
  exact belowFirst (belowMapM members _)

theorem belowPointer (ty pointee : TypeId) :
    Below (expandPointer o visit ty pointee) (expandPointer o more ty pointee) := by
  apply belowNext
  intro s
  split
  · exact belowFirst (below pointee)
  · exact belowRefl _

theorem belowReference (ty pointee : TypeId) :
    Below (expandReference o visit ty pointee) (expandReference o more ty pointee) := by
  apply belowNext
  intro s
  split
  · exact belowFirst (below pointee)
  · exact belowRefl _

theorem belowType (ty : TypeId) (type : TypeClass) :
    Below (expandType t o visit ty type) (expandType t o more ty type) := by
  apply belowNext
  intro complete
  split
  · cases type with
    | record d => exact belowRecord below ty d
    | pointer pointee => exact belowPointer below ty pointee
    | reference pointee => exact belowReference below ty pointee
    | array element length => exact belowFirst (below element)
    | synonym form name target => exact belowFirst (below target)
    | sugar form target => exact below target
    | builtin | enum | dependentSpecialization | unmodelled => exact belowRefl _
  · exact belowRefl _

theorem belowWith (ty : TypeId) : Below (expandWith t o visit ty) (expandWith t o more ty) := by
  apply belowNext
  intro s
  split
  · exact belowRefl _
  · refine belowBind (belowRefl _) (fun e => ?_)
    split
    · exact below _
    · exact belowDeeper (belowType below ty e.type)

end

theorem belowSucc {t : Table} {o : Options} (room : Nat) (ty : TypeId) :
    Below (expand t o room ty) (expand t o (room + 1) ty) := by
  induction room generalizing ty with
  | zero => exact fun s => .inl ⟨s, rfl⟩
  | succ room ih => exact belowWith ih ty

theorem belowMore {t : Table} {o : Options} {room more : Nat} (enough : room ≤ more) (ty : TypeId) :
    Below (expand t o room ty) (expand t o more ty) := by
  induction enough with
  | refl => exact belowRefl _
  | step _ ih => exact belowTrans ih (belowSucc _ ty)

theorem fuelStable {t : Table} (sound : t.Sound) {o : Options} {s : Session}
    (resolved : s.Resolved t) {ty : TypeId} (inside : ty.raw < t.types.size) {more : Nat}
    (enough : fuel t ≤ more) : expand t o more ty s = expand t o (fuel t) ty s := by
  have ready : Ready t o False s := ⟨resolved, False.elim⟩
  have ends := expandAnswers sound (fuel t) s ty ready inside (costFuel s inside)
  rcases belowMore enough ty s with ⟨last, ended⟩ | same
  · unfold Meets at ends
    rw [ended] at ends
    obtain ⟨cause, other⟩ := ends.cause
    contradiction
  · exact same.symm

end ObjectLayout.Expansion
