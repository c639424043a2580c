import ObjectLayout.Proofs.Build.Verdicts

/-! A build that is asked for nothing in particular builds what the table exports. It goes through the
names of the exports, and a name stands for the first type that is exported under it. -/
namespace ObjectLayout.Build

open Session

variable {t : Table} {o : Options}

inductive Contributes (t : Table) (o : Options) (s : Session) (name : String) (ty : TypeId) : End → Prop
  | built {id s'} (own : s.expand t o ty = .ok (.ok id, s')) : Contributes t o s name ty (.ok ⟨name, id⟩)
  | refused {cause r} (alone : (Session.start .empty).expand t o ty = .ok (.error cause, r)) :
      Contributes t o s name ty (.error (.unsupported name cause))

theorem exportedFound {root : NamedType} (held : root ∈ t.roots) :
    ∃ ty, t.lookup root.name = some ty := by
  cases found : t.lookup root.name with
  | some ty => exact ⟨ty, rfl⟩
  | none => exact absurd rfl (lookupMissing found held)

theorem recordedAnswered (sound : t.Sound) {s : Session} (h : Whole t o s) {root : NamedNode}
    (recorded : Recorded t s root) {ty : TypeId} (found : t.lookup root.name = some ty) :
    Contributes t o s root.name ty (.ok root) := by
  obtain ⟨other, last, again, path, looked⟩ := recorded
  cases found.symm.trans again
  have inside := lookupInside sound found
  exact .built (expandAgain sound h.settled.ready h.explored inside path looked)

theorem requestsContribute (sound : t.Sound) {s last : Session} {names : List String}
    {ends : List End} (requests : Requests t o s names ends last) (h : Whole t o s) :
    List.Forall₂ (fun name e => ∀ ty, t.lookup name = some ty → Contributes t o last name ty e)
      names ends := by
  induction requests with
  | nil s => exact .nil
  | @cons s s' last name rest e ends head tail ih =>
    refine .cons (fun ty found => ?_) (ih (endsWhole sound h head))
    cases endsAlone sound h head with
    | unknown absent =>
      obtain ⟨root, held, same, _⟩ := lookupExported found
      exact absurd same (absent root held)
    | refused again alone =>
      cases found.symm.trans again
      exact .refused alone
    | built id again alone =>
      have whole := requestsWhole sound tail (endsWhole sound h head)
      have recorded := (requestsRecorded sound (.cons head tail) h).2 ⟨name, id⟩ List.mem_cons_self
      exact recordedAnswered sound whole recorded found

theorem exportsContribute (valid : t.validate = .ok ()) :
    ∃ b ends, t.build o [] = .ok b ∧ b.archive.roots = built ends ∧ b.failures = failed ends ∧
      List.Forall₂ (fun root e =>
        (∃ ty, t.lookup root.name = some ty ∧ Contributes t o b.session root.name ty e) ∧
        ((∀ other ∈ t.roots, other.name = root.name → other.ty = root.ty) →
          Contributes t o b.session root.name root.ty e)) t.roots ends := by
  have sound := Table.validSound valid
  have start : Whole t o (.start .empty) := emptyWhole
  obtain ⟨ends, last, requests, ran⟩ := buildRequests (o := o) sound []
  refine ⟨_, ends, ran, rfl, rfl, ?_⟩
  have each := requestsContribute sound requests start
  have exported : List.Forall₂ (fun root e => root ∈ t.roots ∧ ∀ ty, t.lookup root.name = some ty →
      Contributes t o last root.name ty e) t.roots ends := by
    have pairs := List.forall₂_iff_zip.mp (List.forall₂_map_left_iff.mp each)
    exact List.forall₂_iff_zip.mpr
      ⟨pairs.1, fun pair => ⟨(List.of_mem_zip pair).1, pairs.2 pair⟩⟩
  refine exported.imp (fun root e held => ?_)
  obtain ⟨ty, found⟩ := exportedFound held.1
  have contributes := held.2 ty found
  refine ⟨⟨ty, found, contributes⟩, fun unique => ?_⟩
  obtain ⟨first, member, name, rfl⟩ := lookupExported found
  exact unique first member name ▸ contributes

theorem sampleExportsContribute :
    ∃ b ends, sampleTable.build sampleOptions [] = .ok b ∧ b.archive.roots = built ends ∧
      b.failures = failed ends ∧
      List.Forall₂ (fun root e =>
        (∃ ty, sampleTable.lookup root.name = some ty ∧
          Contributes sampleTable sampleOptions b.session root.name ty e) ∧
        ((∀ other ∈ sampleTable.roots, other.name = root.name → other.ty = root.ty) →
          Contributes sampleTable sampleOptions b.session root.name root.ty e))
        sampleTable.roots ends :=
  exportsContribute sampleValid

def twiceTable : Table where
  types := #[⟨.builtin .int, none⟩, ⟨.builtin .bool, none⟩]
  decls := #[]
  roots := [⟨"A", ⟨0⟩⟩, ⟨"A", ⟨1⟩⟩]

def twiceSession : Session where
  graph := {
    nodes := #[.primitive .int32]
    roots := [⟨0⟩, ⟨0⟩]
    slots := Graph.empty.slots.setIfInBounds (Primitive.index .int32) (some ⟨0⟩) }
  memo := ⟨[(⟨0⟩, ⟨0⟩)]⟩
  depth := 0

theorem twiceBuilt : twiceTable.build .standard [] =
    .ok ⟨twiceSession, [⟨"A", ⟨0⟩⟩, ⟨"A", ⟨0⟩⟩], []⟩ := by
  rfl

theorem twiceOther : ∃ s, twiceSession.expand twiceTable .standard ⟨1⟩ = .ok (.ok ⟨1⟩, s) := ⟨_, rfl⟩

theorem twiceAlone :
    ∃ s, (Session.start .empty).expand twiceTable .standard ⟨1⟩ = .ok (.ok ⟨0⟩, s) := ⟨_, rfl⟩

/- So an export is not always built for its own type. -/
theorem repeatedExportLost :
    twiceTable.validate = .ok () ∧ ∃ b, twiceTable.build .standard [] = .ok b ∧
      ∀ ends, b.archive.roots = built ends → b.failures = failed ends →
        ¬ List.Forall₂ (fun root e =>
          Contributes twiceTable .standard b.session root.name root.ty e) twiceTable.roots ends := by
  refine ⟨by decide, _, twiceBuilt, ?_⟩
  intro ends roots failures each
  obtain ⟨s, other⟩ := twiceOther
  obtain ⟨r, new⟩ := twiceAlone
  cases each with
  | cons first rest =>
    cases rest with
    | cons second none =>
      cases none
      cases second with
      | refused alone => cases new.symm.trans alone
      | built own =>
        cases other.symm.trans own
        cases first <;> cases roots

end ObjectLayout.Build
