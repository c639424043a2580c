import ObjectLayout.Proofs.Expansion.Depth

/-! The depth as a counter that is good up to some limit: one that gives up beyond it, or one that is
kept in a word of the machine. An expansion with such a counter is compared with the plain one at every
type that it asks for; within the bound on the depth the two do the same. -/
namespace ObjectLayout.Expansion

variable {α β : Type} {t : Table} {o : Options} {s : Session}

def expandCounting (t : Table) (o : Options) (count : Step NodeId → Step NodeId) :
    Nat → TypeId → Step NodeId
  | 0, _ => throw (.fault .endless)
  | fuel + 1, ty => do
      match (← get).memo.find? ty with
      | some id => pure id
      | none => do
          let e ← ask (t.entry ty)
          match e.type.sugarTarget with
          | some inner => expandCounting t o count fuel inner
          | none => count (expandType t o (expandCounting t o count fuel) ty e.type)

theorem countingRuns {count : Step NodeId → Step NodeId} (room : Nat) (ty : TypeId) :
    expandCounting t o count (room + 1) ty s =
      (match s.lookup ty with
        | some id => pure id
        | none => do
            let e ← ask (t.entry ty)
            match e.type.sugarTarget with
            | some inner => expandCounting t o count room inner
            | none => count (expandType t o (expandCounting t o count room) ty e.type) :
        Step NodeId) s :=
  rfl

theorem countingDeeper (room : Nat) (ty : TypeId) :
    expandCounting t o deeper room ty = expand t o room ty := by
  induction room generalizing ty with
  | zero => rfl
  | succ room ih =>
    have below : expandCounting t o deeper room = expand t o room := funext ih
    rw [expandCounting, expand, below]
    rfl

def deeperWithin {α : Type} (limit : Nat) (x : Step α) : Step α := fun s =>
  if s.depth + 1 ≤ limit then deeper x s else .error (.fault .endless) s

def deeperWord {α : Type} (x : Step α) : Step α := fun s =>
  match x { s with depth := (UInt32.ofNat s.depth + 1).toNat } with
  | .ok a s => .ok a { s with depth := (UInt32.ofNat s.depth - 1).toNat }
  | .error e s => .error e { s with depth := (UInt32.ofNat s.depth - 1).toNat }

def Returns (x : Step α) (s : Session) : Prop :=
  Meets s x (fun _ last => last.depth = s.depth) (fun _ last => last.depth = s.depth)

theorem steadyReturns {x : Step α} (steady : Steady x) (s : Session) : Returns x s :=
  meetsMono (steady s) (fun _ _ balanced => balanced.depth) (fun _ _ balanced => balanced.depth)

theorem withinSame {limit : Nat} (x : Step α) (low : s.depth < limit) :
    deeperWithin limit x s = deeper x s := if_pos low

theorem wordSame {x : Step α} (returns : Returns x { s with depth := s.depth + 1 })
    (low : s.depth + 1 < UInt32.size) : deeperWord x s = deeper x s := by
  have fits : s.depth + 1 < 2 ^ 32 := low
  have up : (UInt32.ofNat s.depth + 1).toNat = s.depth + 1 := by
    simp only [UInt32.toNat_add, UInt32.toNat_ofNat', UInt32.toNat_one]
    omega
  have down : (UInt32.ofNat (s.depth + 1) - 1).toNat = s.depth := by
    simp only [UInt32.toNat_sub, UInt32.toNat_ofNat', UInt32.toNat_one]
    omega
  unfold Returns Meets at returns
  simp only [deeperWord, deeper, up]
  cases run : x { s with depth := s.depth + 1 } with
  | ok a last =>
    simp only [run] at returns
    simp only [returns, down, Nat.add_sub_cancel]
  | error e last =>
    simp only [run] at returns
    simp only [returns, down, Nat.add_sub_cancel]

def AgreesFrom (base : Session) (x y : Step α) : Prop := ∀ s, Balanced base s → x s = y s

theorem agreesRefl (base : Session) (x : Step α) : AgreesFrom base x x := fun _ _ => rfl

theorem agreesThen {base : Session} {x y : Step α} {f g : α → Step β} (first : AgreesFrom base x y)
    (steady : Steady x) (next : ∀ a, AgreesFrom base (f a) (g a)) :
    AgreesFrom base (x >>= f) (y >>= g) := by
  intro s balanced
  have held := steady s
  unfold Meets at held
  simp only [bind, EStateM.bind, ← first s balanced]
  cases run : x s with
  | ok a last =>
    simp only [run] at held
    exact next a last (balancedTrans balanced held)
  | error e last => rfl

theorem agreesFirst {x y : Step α} {f : α → Step β} (same : x s = y s) :
    (x >>= f) s = (y >>= f) s := by
  simp only [bind, EStateM.bind, same]

theorem agreesMapM {base : Session} {f g : α → Step β} (each : ∀ a, AgreesFrom base (f a) (g a))
    (steady : ∀ a, Steady (f a)) (xs : List α) : AgreesFrom base (xs.mapM f) (xs.mapM g) := by
  induction xs with
  | nil => exact agreesRefl base _
  | cons a rest ih =>
    rw [List.mapM_cons, List.mapM_cons]
    exact agreesThen (each a) (steady a) (fun b =>
      agreesThen ih (steadyMapM steady rest) (fun bs => agreesRefl base _))

theorem agreesAsk {answer : Except Fault α} {f g : α → Step β} (next : ∀ a, f a s = g a s) :
    (ask answer >>= f) s = (ask answer >>= g) s := by
  cases answer with
  | ok a => exact next a
  | error f => rfl

theorem agreesEnter {ty : TypeId} {n : Node} {f g : NodeId → Step α}
    (next : AgreesFrom (s.enter ty n) (f ⟨s.graph.nodes.size⟩) (g ⟨s.graph.nodes.size⟩)) :
    (do let id ← allocate n; let id ← register ty id; f id : Step α) s =
      (do let id ← allocate n; let id ← register ty id; g id : Step α) s :=
  next _ (balancedRefl _)

section
variable {visit more : TypeId → Step NodeId} (sound : t.Sound) (steady : ∀ ty, Steady (visit ty))
  (agrees : ∀ s ty, s.depth ≤ depthBound t s ty → visit ty s = more ty s)
  {ty : TypeId} {e : TypeEntry} (found : t.entry? ty = some e)
  (within : s.depth ≤ depthBound t s ty + 1)

theorem paramAgrees {base : Session} (steady : ∀ ty, Steady (visit ty))
    (parts : ∀ part, AgreesFrom base (visit part) (more part)) (a : TemplateArgument) :
    AgreesFrom base (expandParam visit a) (expandParam more a) := by
  cases a with
  | type ty isConst => exact agreesThen (parts ty) (steady ty) (fun _ => agreesRefl base _)
  | integral ty value => exact agreesThen (parts ty) (steady ty) (fun _ => agreesRefl base _)
  | template name => cases name <;> exact agreesRefl base _
  | unmodelled kind => exact agreesRefl base _

include sound agrees found within

theorem wrappedAgrees {target : TypeId} (wraps : e.type.wrapped = some target) :
    visit target s = more target s := by
  have closer := boundWrapped (s := s) sound ⟨e, found, wraps⟩
  exact agrees s target (by omega)

include steady

theorem recordAgrees {d : DeclId} (same : e.type = .record d) (fresh : s.lookup ty = none) :
    expandRecord t visit ty d s = expandRecord t more ty d s := by
  have record : isRecord t ty = true := by
    obtain ⟨type, spelling⟩ := e
    simp only at same
    simp [isRecord, found, same]
  have parts : ∀ n part, AgreesFrom (s.enter ty n) (visit part) (more part) := by
    intro n part s' balanced
    have closer := boundRecord sound (Table.entryInRange found) record fresh balanced part
    have depth : s'.depth = s.depth := balanced.depth
    exact agrees s' part (by omega)
  have parents : ∀ n b, AgreesFrom (s.enter ty n) (expandParent visit b) (expandParent more b) :=
    fun n b => agreesThen (parts n b.ty) (steady b.ty) (fun _ => agreesRefl _ _)
  have members : ∀ n f, AgreesFrom (s.enter ty n) (expandMember visit f) (expandMember more f) :=
    fun n f => agreesThen (parts n f.ty) (steady f.ty) (fun _ => agreesRefl _ _)
  apply agreesAsk
  intro info
  apply agreesAsk
  intro size
  apply agreesAsk
  intro align
  -- the record is entered here, so each part is asked for in a session that knows it
  apply agreesEnter
  apply agreesThen (agreesRefl _ _) (steadyAsk _)
  intro args
  apply agreesThen (agreesMapM (paramAgrees steady (parts _)) (steadyParam steady) _)
    (steadyMapM (steadyParam steady) _)
  intro params
  apply agreesThen (agreesRefl _ _) (steadyAsk _)
  intro bases
  apply agreesThen (agreesMapM (parents _) (steadyParent steady) bases)
    (steadyMapM (steadyParent steady) bases)
  intro parents
  apply agreesThen (agreesRefl _ _) (steadyAsk _)
  intro fields
  apply agreesThen (agreesMapM (members _) (steadyMember steady) fields)
    (steadyMapM (steadyMember steady) fields)
  intro members
  exact agreesRefl _ _

theorem typeAgrees (fresh : s.lookup ty = none) :
    expandType t o visit ty e.type s = expandType t o more ty e.type s := by
  have wrapped : ∀ target, e.type.wrapped = some target → visit target s = more target s :=
    fun target wraps => wrappedAgrees sound agrees found within wraps
  apply agreesAsk
  intro complete
  split
  · cases same : e.type with
    | record d => exact recordAgrees sound steady agrees found within same fresh
    | pointer pointee =>
      have below := wrapped pointee (by rw [same]; rfl)
      simp only [expandPointer, getRuns]
      split
      · exact agreesFirst below
      · rfl
    | reference pointee =>
      have below := wrapped pointee (by rw [same]; rfl)
      simp only [expandReference, getRuns]
      split
      · exact agreesFirst below
      · rfl
    | array element length => exact agreesFirst (wrapped element (by rw [same]; rfl))
    | synonym form name target => exact agreesFirst (wrapped target (by rw [same]; rfl))
    | sugar form target => exact wrapped target (by rw [same]; rfl)
    | builtin | enum | dependentSpecialization | unmodelled => rfl
  · rfl

end

def Counts (t : Table) (count : Step NodeId → Step NodeId) : Prop :=
  ∀ x s, Returns x { s with depth := s.depth + 1 } → s.depth < 2 * t.types.size →
    count x s = deeper x s

theorem levelAgrees (sound : t.Sound) {visit more : TypeId → Step NodeId}
    (steady : ∀ ty, Steady (visit ty))
    (agrees : ∀ s ty, s.depth ≤ depthBound t s ty → visit ty s = more ty s) {ty : TypeId}
    {e : TypeEntry} (found : t.entry? ty = some e) {count : Step NodeId → Step NodeId}
    (counts : Counts t count) (within : s.depth ≤ depthBound t s ty) (fresh : s.lookup ty = none) :
    deeper (expandType t o visit ty e.type) s = count (expandType t o more ty e.type) s := by
  let below : Session := { s with depth := s.depth + 1 }
  have low := Nat.lt_of_le_of_lt within (boundFew sound (Table.entryInRange found))
  have unknown : below.lookup ty = none := fresh
  have same : expandType t o visit ty e.type below = expandType t o more ty e.type below :=
    typeAgrees sound steady agrees found (Nat.succ_le_succ within) unknown
  have returns : Returns (expandType t o more ty e.type) below :=
    meetsRun same.symm (steadyReturns (steadyType steady ty e.type) below)
  rw [counts _ s returns low]
  simp only [deeper]
  rw [same]

theorem countingAgrees (sound : t.Sound) {count : Step NodeId → Step NodeId}
    (counts : Counts t count) (room : Nat) (s : Session) (ty : TypeId)
    (within : s.depth ≤ depthBound t s ty) :
    expand t o room ty s = expandCounting t o count room ty s := by
  induction room generalizing s ty with
  | zero => rfl
  | succ room ih =>
    cases looked : s.lookup ty with
    | some id =>
      rw [expand, expandWithKnown looked, countingRuns, looked]
      rfl
    | none =>
      cases found : t.entry? ty with
      | none =>
        rw [expand, expandWithMissing looked found, countingRuns, looked, Table.entry, found]
        rfl
      | some e =>
        rw [expand, expandWithFresh looked found, countingRuns, looked, askOk (Table.entryOk found)]
        simp only [pure_bind]
        cases step : e.type.sugarTarget with
        | some inner =>
          have closer := boundWrapped (s := s) sound ⟨e, found, sugarWraps step⟩
          exact ih s inner (by omega)
        | none => exact levelAgrees sound (expandSteady room) ih found counts within looked

end ObjectLayout.Expansion
