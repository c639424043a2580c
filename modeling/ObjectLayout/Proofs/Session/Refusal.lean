import ObjectLayout.Proofs.Expansion.Exploration
import ObjectLayout.Proofs.Session.Ending
import ObjectLayout.Proofs.Session.Residue

/-! When a call is refused. What a type leads to is read off the table, and so is whether there is
something among it that no layout exists for; what earlier calls have left in the session makes no
difference. -/
namespace ObjectLayout.Session

open Expansion

variable {t : Table} {o : Options} {precise : Prop}

def AllExplored (t : Table) (o : Options) (s : Session) : Prop := ∀ ty, s.Knows ty → Explored t o s ty

theorem startExplored (g : Graph) : AllExplored t o (.start g) := by
  rintro ty ⟨id, looked⟩
  simp [lookup, start, Memo.findEmpty] at looked

theorem exploredAfter {asked : TypeId → Prop} {s last : Session} (h : AllExplored t o s)
    (path : Explores t o asked s last) : AllExplored t o last := by
  intro ty known
  rcases path.entered ty known with before | explored
  · exact exploredKept path.kept (h ty before)
  · exact explored

theorem exploredLevel {s : Session} (h : AllExplored t o s) (depth : Nat) :
    AllExplored t o { s with depth := depth } := by
  have kept : ∀ ty, s.Knows ty → Session.Knows { s with depth := depth } ty := fun _ known => known
  exact fun ty known => exploredKept kept (h ty known)

theorem exploredAhead {s r : Session} (h : AllExplored t o r) (ahead : Ahead t o s r) :
    AllExplored t o s := by
  rintro ty ⟨id, looked⟩
  rcases ahead.extra ty id looked with known | ⟨kind, measured, _⟩
  · exact exploredKept (fun other ⟨place, there⟩ => ⟨place, ahead.memo other place there⟩)
      (h ty ⟨id, known⟩)
  · exact exploredBuiltin measured

inductive Search (t : Table) (o : Options) (s : Session) (ty : TypeId) :
    Except Unsupported NodeId → Session → Prop
  | node {id last} (explores : Explores t o (t.Desugars ty) { s with depth := 0 } last)
      (met : Met t true last ty) : Search t o s ty (.ok id) last
  | refused {cause last s'} (path : t.Reaches o (t.Desugars ty) ty last)
      (refuses : t.Refuses o last cause) : Search t o s ty (.error cause) s'

theorem expandSearch (sound : t.Sound) {s s' : Session} {ty : TypeId} {a}
    (ended : s.expand t o ty = .ok (a, s')) : Search t o s ty a s' := by
  have finds : Finds t o (t.Desugars ty) true { s with depth := 0 } ty
      (Expansion.expand t o (fuel t) ty) :=
    findsMono (fun _ => And.right) (expandFinds sound (fuel t) { s with depth := 0 } ty)
  unfold expand at ended
  unfold Finds Meets at finds
  cases run : Expansion.expand t o (fuel t) ty { s with depth := 0 } with
  | ok id last =>
    simp only [run] at ended finds
    cases ended
    exact .node finds.explores finds.met
  | error e last =>
    simp only [run] at ended finds
    cases e with
    | fault f => contradiction
    | unsupported cause =>
      cases ended
      obtain ⟨last, path, refuses⟩ := finds cause rfl
      exact .refused path refuses

theorem answerSearch (sound : t.Sound) {s s' : Session} {call : Call} {a}
    (ended : s.answer t o call = .ok (a, s')) : Search t o s call.ty a s' := by
  obtain ⟨last, expanded, ends⟩ := answerExpands ended
  have found := expandSearch sound expanded
  rw [ends]
  rcases finishCases last call a with same | ⟨id, _, same⟩ <;> rw [same]
  · exact found
  · cases found with
    | refused path refuses => exact .refused path refuses
    | node explores met =>
      have rooted : Explores t o (t.Desugars call.ty) last (last.addRoot id) := exploresGraph last _
      exact .node (exploresTrans explores rooted) (metKept rooted.kept met)

theorem answerExplored (sound : t.Sound) {s s' : Session} (settled : Settled t o precise s)
    (h : AllExplored t o s) {call : Call} {a} (ended : s.answer t o call = .ok (a, s')) :
    AllExplored t o s' := by
  cases answerSearch sound ended with
  | node explores met => exact exploredAfter (exploredLevel h 0) explores
  | refused path refuses => exact exploredAhead h (refusalAhead sound settled.ready ended)

theorem runExplored (sound : t.Sound) {s last : Session} (settled : Settled t o precise s)
    (h : AllExplored t o s) {calls : List Call} {answers}
    (ran : run t o s calls = .ok (answers, last)) :
    Settled t o precise last ∧ AllExplored t o last :=
  runKeeps (P := fun s => Settled t o precise s ∧ AllExplored t o s)
    (fun _ _ _ _ both ended =>
      ⟨answerSettled sound both.1 ended, answerExplored sound both.1 both.2 ended⟩) ran ⟨settled, h⟩

theorem metAllowed {followed} {s : Session} (h : AllExplored t o s) {ty : TypeId}
    (met : Met t followed s ty) (cause : Unsupported) : ¬ t.Refuses o ty cause := by
  intro refuses
  cases met with
  | known known => exact (h ty known).allowed cause refuses
  | address address unfollowed =>
    obtain ⟨e, found, pointee⟩ := address
    obtain ⟨target, same⟩ := Option.ne_none_iff_exists'.mp pointee
    exact Table.wrapperAllowed (pointeeWraps same) cause (Table.refusesEntry found refuses)
  | sugar found step rest =>
    exact Table.wrapperAllowed (sugarWraps step) cause (Table.refusesEntry found refuses)

theorem askedKnown {s : Session} (h : AllExplored t o s) {ty target : TypeId}
    (met : Met t true s ty) (path : t.Desugars ty target) : s.Knows target := by
  induction met with
  | @known ty known =>
    obtain ⟨e, found, plain⟩ := (h ty known).plain
    exact Table.desugarsPlain found plain path ▸ known
  | address address unfollowed => contradiction
  | sugar found step rest ih => exact ih (Table.desugarsSugar found step path)

def OnTheWay (t : Table) (o : Options) (s : Session) (ty : TypeId) : Prop :=
  ∃ followed, (o.chasePointers = true → followed = true) ∧ Met t followed s ty

theorem leadsMet {s : Session} (h : AllExplored t o s) {root ty part : TypeId}
    (top : Met t true s root) (way : OnTheWay t o s ty)
    (leads : t.Leads (o.chasePointers = true ∨ t.Desugars root ty) ty part) :
    OnTheWay t o s part := by
  have parts : s.Knows ty → OnTheWay t o s part := by
    intro known
    have step := Table.leadsMono (fun _ => trivial) leads
    exact ⟨_, fun chases => chases, (h ty known).parts part step⟩
  obtain ⟨followed, least, met⟩ := way
  cases met with
  | known known => exact parts known
  | address address unfollowed =>
    rcases Table.addressLeads address leads with chases | asked
    · rw [least chases] at unfollowed
      contradiction
    · exact parts (askedKnown h top asked)
  | sugar found step rest => exact ⟨_, least, Table.sugarLeads found step leads ▸ rest⟩

theorem reachesMet {s : Session} (h : AllExplored t o s) {root ty : TypeId}
    (top : Met t true s root) (path : t.Reaches o (t.Desugars root) root ty) :
    OnTheWay t o s ty := by
  induction path with
  | refl => exact ⟨true, fun _ => rfl, top⟩
  | tail before leads ih => exact leadsMet h top ih leads

theorem refusedExactly {g : Graph} {calls : List Call} {answers} {s : Session} {call : Call}
    (valid : t.validate = .ok ()) (slots : g.SlotsResolve)
    (ran : run t o (.start g) calls = .ok (answers, s)) (inside : call.ty.raw < t.types.size) :
    ∃ a s', s.answer t o call = .ok (a, s') ∧
      ((∃ cause, a = .error cause) ↔ ∃ last cause,
        t.Reaches o (t.Desugars call.ty) call.ty last ∧ t.Refuses o last cause) ∧
      ∀ cause, a = .error cause → ∃ last,
        t.Reaches o (t.Desugars call.ty) call.ty last ∧ t.Refuses o last cause := by
  have sound := Table.validSound valid
  have start : Settled t o False (.start g) := startSettled slots
  obtain ⟨settled, explored⟩ := runExplored sound start (startExplored g) ran
  obtain ⟨a, s', ended, _⟩ := callEnds sound settled.ready inside
  have after := answerExplored sound settled explored ended
  refine ⟨a, s', ended, ?_⟩
  cases answerSearch sound ended with
  | node explores met =>
    refine ⟨⟨?_, ?_⟩, ?_⟩
    · rintro ⟨cause, same⟩
      contradiction
    · rintro ⟨last, cause, path, refuses⟩
      obtain ⟨followed, _, met⟩ := reachesMet after met path
      exact absurd refuses (metAllowed after met cause)
    · intro cause same
      contradiction
  | @refused cause last _ path refuses =>
    refine ⟨⟨fun _ => ⟨last, cause, path, refuses⟩, fun _ => ⟨cause, rfl⟩⟩, ?_⟩
    intro other same
    cases same
    exact ⟨last, path, refuses⟩

theorem sampleRefusedExactly :
    ∃ a s', sampleSession.answer sampleTable sampleOptions (.expand ⟨7⟩) = .ok (a, s') ∧
      ((∃ cause, a = .error cause) ↔ ∃ last cause,
        sampleTable.Reaches sampleOptions (sampleTable.Desugars ⟨7⟩) ⟨7⟩ last ∧
          sampleTable.Refuses sampleOptions last cause) ∧
      ∀ cause, a = .error cause → ∃ last,
        sampleTable.Reaches sampleOptions (sampleTable.Desugars ⟨7⟩) ⟨7⟩ last ∧
          sampleTable.Refuses sampleOptions last cause :=
  refusedExactly sampleValid Graph.emptySlotsResolve sampleRun (by decide)

end ObjectLayout.Session
