import ObjectLayout.Proofs.Expansion.Change

/-! What holds where a step ends, with an answer or with a stop. The session at the start is fixed,
so that an outcome can be compared with it. -/
namespace ObjectLayout.Expansion

def Meets {α : Type} (s : Session) (x : Step α) (ok : α → Session → Prop)
    (stop : Stop → Session → Prop) : Prop :=
  match x s with
  | .ok a last => ok a last
  | .error e last => stop e last

variable {α β : Type} {s : Session}

theorem meetsMono {x : Step α} {ok other : α → Session → Prop} {stop halt : Stop → Session → Prop}
    (h : Meets s x ok stop) (answers : ∀ a last, ok a last → other a last)
    (stops : ∀ e last, stop e last → halt e last) : Meets s x other halt := by
  unfold Meets at h ⊢
  cases run : x s with
  | ok a last =>
    simp only [run] at h
    exact answers a last h
  | error e last =>
    simp only [run] at h
    exact stops e last h

theorem meetsBoth {x : Step α} {ok other : α → Session → Prop} {stop halt : Stop → Session → Prop}
    (first : Meets s x ok stop) (second : Meets s x other halt) :
    Meets s x (fun a last => ok a last ∧ other a last) (fun e last => stop e last ∧ halt e last) := by
  unfold Meets at *
  cases run : x s <;> simp only [run] at first second <;> exact ⟨first, second⟩

theorem meetsBind {x : Step α} {f : α → Step β} {mid : α → Session → Prop}
    {ok : β → Session → Prop} {early stop : Stop → Session → Prop} (first : Meets s x mid early)
    (stops : ∀ e last, early e last → stop e last)
    (next : ∀ a last, mid a last → Meets last (f a) ok stop) : Meets s (x >>= f) ok stop := by
  unfold Meets at first ⊢
  simp only [bind, EStateM.bind]
  cases run : x s with
  | ok a last =>
    simp only [run] at first
    exact next a last first
  | error e last =>
    simp only [run] at first
    exact stops e last first

theorem meetsThen {x : Step α} {f : α → Step β} {mid : α → Session → Prop}
    {ok : β → Session → Prop} {stop : Stop → Session → Prop} (first : Meets s x mid stop)
    (next : ∀ a last, mid a last → Meets last (f a) ok stop) : Meets s (x >>= f) ok stop :=
  meetsBind first (fun _ _ stopped => stopped) next

theorem meetsRun {x y : Step α} {s' : Session} {ok : α → Session → Prop}
    {stop : Stop → Session → Prop} (run : x s = y s') (h : Meets s' y ok stop) : Meets s x ok stop := by
  unfold Meets
  rw [run]
  exact h

theorem meetsMapM {R : Session → Session → Prop} (refl : ∀ s, R s s)
    (trans : ∀ {a b c}, R a b → R b c → R a c) {Q : Session → α → β → Prop}
    (kept : ∀ {a b s s'}, R s s' → Q s a b → Q s' a b) {stop : Stop → Session → Prop}
    {f : α → Step β} {xs : List α}
    (each : ∀ a ∈ xs, ∀ s', R s s' → Meets s' (f a) (fun b last => R s' last ∧ Q last a b) stop) :
    Meets s (xs.mapM f) (fun bs last => R s last ∧ List.Forall₂ (Q last) xs bs) stop := by
  induction xs generalizing s with
  | nil =>
    rw [List.mapM_nil]
    exact ⟨refl s, .nil⟩
  | cons a rest ih =>
    rw [List.mapM_cons]
    apply meetsThen (each a List.mem_cons_self s (refl s))
    rintro b s₁ ⟨first, head⟩
    apply meetsThen (ih (fun x inside s' after =>
      each x (List.mem_cons_of_mem _ inside) s' (trans first after)))
    rintro bs s₂ ⟨second, tail⟩
    exact ⟨trans first second, .cons (kept second head) tail⟩

theorem meetsDeeper {x : Step α} {ok : α → Session → Prop} {stop : Stop → Session → Prop}
    (h : Meets { s with depth := s.depth + 1 } x
      (fun a last => ok a { last with depth := last.depth - 1 })
      (fun e last => stop e { last with depth := last.depth - 1 })) : Meets s (deeper x) ok stop := by
  unfold Meets at h ⊢
  simp only [deeper]
  cases run : x { s with depth := s.depth + 1 } <;> simp only [run] at h <;> exact h

theorem thenRuns {x : Step α} {a : α} {last : Session} (run : x s = .ok a last) (f : α → Step β) :
    (x >>= f) s = f a last := by
  simp only [bind, EStateM.bind, run]

theorem getRuns (f : Session → Step α) : (get >>= f : Step α) s = f s s := rfl

theorem askOk {answer : Except Fault α} {a : α} (h : answer = .ok a) :
    (ask answer : Step α) = pure a := by
  rw [h]
  rfl

theorem fillRuns {id : NodeId} {old : Record} (found : s.graph.node? id = some (.record old))
    (f : Record → Record) :
    (do fill id f; pure id : Step NodeId) s = .ok id (s.refill id (f old)) := by
  simp only [fill, Graph.modifyRecordFound found, bind, EStateM.bind, pure, EStateM.pure]
  rfl

theorem registerNewRuns (ty : TypeId) (n : Node) :
    registerNew ty n s =
      (match s.lookup ty with
        | some id => pure id
        | none => do
            let id ← allocate n
            register ty id : Step NodeId) s :=
  rfl

theorem registerNewKnown {ty : TypeId} {id : NodeId} (looked : s.lookup ty = some id) (n : Node) :
    registerNew ty n s = .ok id s := by
  rw [registerNewRuns, looked]
  rfl

theorem registerNewFresh {ty : TypeId} (fresh : s.lookup ty = none) (n : Node) :
    registerNew ty n s = .ok ⟨s.graph.nodes.size⟩ (s.enter ty n) := by
  rw [registerNewRuns, fresh]
  rfl

variable {t : Table} {o : Options} {visit : TypeId → Step NodeId}

theorem expandWithRuns (ty : TypeId) :
    expandWith t o visit ty s =
      (match s.lookup ty with
        | some id => pure id
        | none => do
            let e ← ask (t.entry ty)
            match e.type.sugarTarget with
            | some inner => visit inner
            | none => deeper (expandType t o visit ty e.type) : Step NodeId) s :=
  rfl

theorem expandWithKnown {ty : TypeId} {id : NodeId} (looked : s.lookup ty = some id) :
    expandWith t o visit ty s = .ok id s := by
  rw [expandWithRuns, looked]
  rfl

theorem expandWithFresh {ty : TypeId} {e : TypeEntry} (fresh : s.lookup ty = none)
    (found : t.entry? ty = some e) :
    expandWith t o visit ty s =
      (match e.type.sugarTarget with
        | some inner => visit inner
        | none => deeper (expandType t o visit ty e.type)) s := by
  rw [expandWithRuns, fresh, askOk (Table.entryOk found)]
  rfl

theorem expandWithMissing {ty : TypeId} (fresh : s.lookup ty = none) (absent : t.entry? ty = none) :
    expandWith t o visit ty s = .error (.fault (.missingType ty)) s := by
  rw [expandWithRuns, fresh, Table.entry, absent]
  rfl

theorem expandKnown {ty : TypeId} {id : NodeId} (looked : s.lookup ty = some id) (room : Nat) :
    Meets s (Expansion.expand t o room ty) (fun a last => a = id ∧ last = s)
      (fun e _ => e = .fault .endless) := by
  cases room with
  | zero => rfl
  | succ room =>
    unfold Meets
    rw [Expansion.expand, expandWithKnown looked]
    exact ⟨rfl, rfl⟩

def hollow (info : RecordInfo) (size align : UInt64) : Record :=
  ⟨info.kind, info.name, info.qualifiedName, size / 8, align / 8, info.isDynamic, [], [], [], []⟩

theorem expandRecordRuns {ty : TypeId} {d : DeclId} {info : RecordInfo} {x : RecordDef}
    {size align : UInt64} (decl : t.decl? d = some (.record info (some x)))
    (sized : t.sizeInBits ty = .ok size) (aligned : t.alignInBits ty = .ok align) :
    expandRecord t visit ty d s =
      (do
        let params ← (x.templateArgs.getD []).mapM (expandParam visit)
        let parents ← x.bases.mapM (expandParent visit)
        let members ← x.fields.mapM (expandMember visit)
        fill ⟨s.graph.nodes.size⟩ (fun r =>
          { r with
            params := params
            parents := parents
            members := layoutOrder members
            functions := x.methods.map (fun m => ⟨m.name, m.isVirtual⟩) })
        pure ⟨s.graph.nodes.size⟩ : Step NodeId)
      (s.enter ty (.record (hollow info size align))) := by
  have recordInfo : t.recordInfo d = .ok info := by
    simp [Table.recordInfo, Table.declOk decl, bind, Except.bind]
  have part : ∀ {α : Type} (missing : α) (f : RecordDef → α),
      t.ofRecordDef d missing f = .ok (f x) := by
    intro α missing f
    simp [Table.ofRecordDef, Table.recordDef, Table.declOk decl, bind, Except.bind]
  unfold expandRecord
  simp only [askOk recordInfo, askOk sized, askOk aligned, Table.templateArgs, Table.bases,
    Table.fields, Table.methods, askOk (part _ _), pure_bind]
  rfl

theorem expandEnumRuns {ty : TypeId} {d : DeclId} {name : String} {x : EnumDef} {size : UInt64}
    (decl : t.decl? d = some (.enum name (some x))) (sized : t.sizeInBits ty = .ok size) :
    expandEnum t o ty d s =
      .ok ⟨s.graph.nodes.size⟩ (s.enter ty (.enum ⟨name, size / 8,
        .ofDeclared (if o.readEnumerators then x.enumerators else [])⟩)) := by
  have named : t.enumName d = .ok name := by
    simp [Table.enumName, Table.declOk decl, bind, Except.bind]
  have declared : t.enumerators d = .ok x.enumerators := by
    simp [Table.enumerators, Table.enumDef, Table.declOk decl, bind, Except.bind]
  unfold expandEnum
  simp only [askOk declared, askOk named, askOk sized, pure_bind]
  split <;> rfl

theorem expandIncompleteRuns {ty : TypeId} {name : String} (undefined : t.isComplete ty = .ok false)
    (named : t.displayName ty = .ok name) (type : TypeClass) :
    expandType t o visit ty type s =
      .ok ⟨s.graph.nodes.size⟩ (s.enter ty (.incomplete s!"incomplete type `{name}`")) := by
  simp only [expandType, askOk undefined, askOk named, pure_bind, Bool.false_eq_true, if_false]
  rfl

end ObjectLayout.Expansion
