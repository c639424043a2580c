import ObjectLayout.Proofs.Expansion.Exploration

/-! What an expansion leaves as it was, for any table and any session. Whether it ends with a node or
stops, and wherever it stops, the depth is again the one that it was entered with; and no type that was
known is forgotten on the way. -/
namespace ObjectLayout.Expansion

variable {α β : Type} {t : Table} {o : Options} {visit : TypeId → Step NodeId} {s : Session}

structure Balanced (s last : Session) : Prop where
  depth : last.depth = s.depth
  known : ∀ ty, s.Knows ty → last.Knows ty

theorem balancedGraph (s : Session) (g : Graph) : Balanced s { s with graph := g } :=
  ⟨rfl, fun _ known => known⟩

theorem balancedRefl (s : Session) : Balanced s s := balancedGraph s s.graph

theorem balancedTrans {a b c : Session} (first : Balanced a b) (second : Balanced b c) : Balanced a c :=
  ⟨second.depth.trans first.depth, fun ty known => second.known ty (first.known ty known)⟩

theorem balancedInsert (s : Session) (ty : TypeId) (id : NodeId) :
    Balanced s { s with memo := s.memo.insert ty id } := by
  refine ⟨rfl, fun other known => ?_⟩
  obtain ⟨old, looked⟩ := known
  have found := Memo.findInsert s.memo ty other id
  by_cases same : other = ty
  · exact ⟨id, by rw [Session.lookup, found, if_pos same]⟩
  · exact ⟨old, by rw [Session.lookup, found, if_neg same]; exact looked⟩

def Steady (x : Step α) : Prop :=
  ∀ s, Meets s x (fun _ last => Balanced s last) (fun _ last => Balanced s last)

theorem steadyPure (a : α) : Steady (pure a) := balancedRefl

theorem steadyThrow (e : Stop) : Steady (throw e : Step α) := balancedRefl

theorem steadyAsk (answer : Except Fault α) : Steady (ask answer) := by
  cases answer with
  | ok a => exact steadyPure a
  | error f => exact steadyThrow _

theorem steadyThen {x : Step α} {f : α → Step β} (first : Steady x) (next : ∀ a, Steady (f a)) :
    Steady (x >>= f) := by
  intro s
  apply meetsThen (first s)
  intro a last balanced
  exact meetsMono (next a last) (fun _ _ later => balancedTrans balanced later)
    (fun _ _ later => balancedTrans balanced later)

theorem steadyGet {f : Session → Step α} (each : ∀ s, Steady (f s)) : Steady (get >>= f) :=
  steadyThen balancedRefl each

theorem steadyMapM {f : α → Step β} (each : ∀ a, Steady (f a)) (xs : List α) :
    Steady (xs.mapM f) := by
  induction xs with
  | nil =>
    rw [List.mapM_nil]
    exact steadyPure []
  | cons a rest ih =>
    rw [List.mapM_cons]
    exact steadyThen (each a) (fun b => steadyThen ih (fun bs => steadyPure (b :: bs)))

theorem steadyDeeper {x : Step α} (inner : Steady x) : Steady (deeper x) := by
  intro s
  have up : ∀ last, Balanced { s with depth := s.depth + 1 } last →
      Balanced s { last with depth := last.depth - 1 } :=
    fun last balanced => ⟨by simp [balanced.depth], balanced.known⟩
  exact meetsDeeper (meetsMono (inner _) (fun _ last => up last) (fun _ last => up last))

theorem steadyAllocate (n : Node) : Steady (allocate n) := fun s => balancedGraph s _

theorem steadyPrimitive (kind : Primitive) : Steady (primitive kind) := fun s => balancedGraph s _

theorem steadyRegister (ty : TypeId) (id : NodeId) : Steady (register ty id) :=
  fun s => balancedInsert s ty id

theorem steadyEnter (ty : TypeId) (n : Node) : Steady (do let id ← allocate n; register ty id) :=
  steadyThen (steadyAllocate n) (steadyRegister ty)

theorem steadyRegisterNew (ty : TypeId) (n : Node) : Steady (registerNew ty n) := by
  apply steadyGet
  intro s
  split
  · exact steadyPure _
  · exact steadyEnter ty n

theorem steadyFill (id : NodeId) (f : Record → Record) : Steady (fill id f) := by
  intro s
  unfold Meets fill
  cases s.graph.modifyRecord id f with
  | none => exact balancedRefl s
  | some g => exact balancedGraph s g

theorem steadyEnum (ty : TypeId) (d : DeclId) : Steady (expandEnum t o ty d) := by
  have rest : ∀ declared, Steady (do
      let name ← ask (t.enumName d)
      let size ← ask (t.sizeInBits ty)
      let id ← allocate (.enum ⟨name, size / 8, .ofDeclared declared⟩)
      register ty id) :=
    fun declared => steadyThen (steadyAsk _) (fun name =>
      steadyThen (steadyAsk _) (fun size => steadyEnter ty _))
  unfold expandEnum
  split
  · exact steadyThen (steadyAsk _) rest
  · exact steadyThen (steadyPure _) rest

section
variable (below : ∀ ty, Steady (visit ty))
include below

theorem steadyParam (a : TemplateArgument) : Steady (expandParam visit a) := by
  cases a with
  | type ty isConst => exact steadyThen (below ty) (fun _ => steadyPure _)
  | integral ty value => exact steadyThen (below ty) (fun _ => steadyPure _)
  | template name => cases name with
    | template qualifiedName => exact steadyPure _
    | indirect kind => exact steadyThrow _
  | unmodelled kind => exact steadyThrow _

theorem steadyParent (b : Base) : Steady (expandParent visit b) :=
  steadyThen (below b.ty) (fun _ => steadyPure _)

theorem steadyMember (f : Field) : Steady (expandMember visit f) :=
  steadyThen (below f.ty) (fun _ => steadyPure _)

theorem steadyRecord (ty : TypeId) (d : DeclId) : Steady (expandRecord t visit ty d) := by
  apply steadyThen (steadyAsk _)
  intro info
  apply steadyThen (steadyAsk _)
  intro size
  apply steadyThen (steadyAsk _)
  intro align
  apply steadyThen (steadyAllocate _)
  intro allocated
  apply steadyThen (steadyRegister ty allocated)
  intro id
  apply steadyThen (steadyAsk _)
  intro args
  apply steadyThen (steadyMapM (steadyParam below) _)
  intro params
  apply steadyThen (steadyAsk _)
  intro bases
  apply steadyThen (steadyMapM (steadyParent below) bases)
  intro parents
  apply steadyThen (steadyAsk _)
  intro fields
  apply steadyThen (steadyMapM (steadyMember below) fields)
  intro members
  apply steadyThen (steadyAsk _)
  intro methods
  exact steadyThen (steadyFill id _) (fun _ => steadyPure id)

theorem steadyWrapper (ty target : TypeId) (make : NodeId → Node) :
    Steady (do let id ← visit target; registerNew ty (make id)) :=
  steadyThen (below target) (fun id => steadyRegisterNew ty (make id))

theorem steadyPointer (ty pointee : TypeId) : Steady (expandPointer o visit ty pointee) := by
  apply steadyGet
  intro s
  split
  · exact steadyWrapper below ty pointee .pointer
  · exact steadyPrimitive _

theorem steadyReference (ty pointee : TypeId) : Steady (expandReference o visit ty pointee) := by
  apply steadyGet
  intro s
  split
  · apply steadyThen (below pointee)
    intro id
    apply steadyGet
    intro last
    apply steadyThen (steadyAsk _)
    intro n
    split <;> exact steadyRegisterNew ty _
  · exact steadyPrimitive _

theorem steadyType (ty : TypeId) (type : TypeClass) : Steady (expandType t o visit ty type) := by
  apply steadyThen (steadyAsk _)
  intro complete
  split
  · cases type with
    | builtin kind =>
      cases measured : kind.primitive? o.model with
      | some p =>
        simp only [measured]
        exact steadyThen (steadyPrimitive p) (steadyRegister ty)
      | none =>
        simp only [measured]
        exact steadyThrow _
    | record d => exact steadyRecord below ty d
    | enum d => exact steadyEnum ty d
    | pointer pointee => exact steadyPointer below ty pointee
    | reference pointee => exact steadyReference below ty pointee
    | array element length => exact steadyWrapper below ty element (.array · length)
    | synonym form name target => exact steadyWrapper below ty target (.typedef name)
    | sugar form target => exact below target
    | dependentSpecialization | unmodelled category => exact steadyThrow _
  · exact steadyThen (steadyAsk _) (fun name => steadyEnter ty _)

theorem steadyWith (ty : TypeId) : Steady (expandWith t o visit ty) := by
  apply steadyGet
  intro s
  split
  · exact steadyPure _
  · apply steadyThen (steadyAsk _)
    intro e
    split
    · exact below _
    · exact steadyDeeper (steadyType below ty e.type)

end

theorem expandSteady (room : Nat) (ty : TypeId) : Steady (expand t o room ty) := by
  induction room generalizing ty with
  | zero => exact steadyThrow _
  | succ room ih => exact steadyWith ih ty

end ObjectLayout.Expansion
