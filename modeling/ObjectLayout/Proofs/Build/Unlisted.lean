import ObjectLayout.Proofs.Build.Requests
import ObjectLayout.Proofs.Expansion.Unlisted

/-! What reading the values of enums adds to a build. It adds their names to the nodes of the enums,
and that is all: what is built, what fails and why, and every other node are the same. -/
namespace ObjectLayout

variable {t : Table} {o : Options}

namespace Session

theorem unlistedRollback (s : Session) (m : Mark) :
    s.unlisted.rollback m = (s.rollback m).unlisted := by
  simp only [rollback, unlisted, Graph.unlistedRollback]

theorem unlistedFinish (s : Session) (call : Call) (a : Except Unsupported NodeId) :
    s.unlisted.finish call a = (s.finish call a).unlisted := by
  cases call with
  | expand ty => rfl
  | expandRoot ty => cases a <;> rfl

theorem expandUnlisted {s s' : Session} {ty : TypeId} {a : Except Unsupported NodeId}
    (ended : s.expand t { o with readEnumerators := true } ty = .ok (a, s')) :
    s.unlisted.expand t { o with readEnumerators := false } ty = .ok (a, s'.unlisted) := by
  have both := Expansion.unlistsExpand (t := t) (o := o) (Expansion.fuel t) ty
    { s with depth := 0 } { s.unlisted with depth := 0 } rfl
  have mark : s.unlisted.graph.mark = s.graph.mark := Graph.unlistedMark s.graph
  unfold expand at ended ⊢
  generalize Expansion.expand t _ (Expansion.fuel t) ty { s with depth := 0 } = x at both ended
  generalize Expansion.expand t _ (Expansion.fuel t) ty { s.unlisted with depth := 0 } = y at both ⊢
  cases both with
  | ok id same =>
    cases ended
    cases same
    rfl
  | error e same =>
    cases same
    cases e with
    | fault f => contradiction
    | unsupported cause =>
      cases ended
      simp only [mark, unlistedRollback]

theorem answerUnlisted {s s' : Session} {call : Call} {a : Except Unsupported NodeId}
    (ended : s.answer t { o with readEnumerators := true } call = .ok (a, s')) :
    s.unlisted.answer t { o with readEnumerators := false } call = .ok (a, s'.unlisted) := by
  obtain ⟨last, expanded, same⟩ := answerExpands ended
  rw [answerRuns, expandUnlisted expanded, same, ← unlistedFinish]
  rfl

end Session

namespace Build

open Session

theorem endsUnlisted {s s' : Session} {name : String} {e : End}
    (h : Ends t { o with readEnumerators := true } s name e s') :
    Ends t { o with readEnumerators := false } s.unlisted name e s'.unlisted := by
  cases h with
  | unknown absent => exact .unknown absent
  | refused found ended => exact .refused found (answerUnlisted ended)
  | built found ended => exact .built found (answerUnlisted ended)

theorem requestsUnlisted {s last : Session} {names : List String} {ends : List End}
    (requests : Requests t { o with readEnumerators := true } s names ends last) :
    Requests t { o with readEnumerators := false } s.unlisted names ends last.unlisted := by
  induction requests with
  | nil s => exact .nil s.unlisted
  | cons head tail ih => exact .cons (endsUnlisted head) ih

theorem startUnlisted : (Session.start .empty).unlisted = .start .empty := by
  simp [Session.unlisted, Graph.unlisted, Session.start, Graph.empty]

theorem enumeratorsUnseen {requested : List String} (valid : t.validate = .ok ()) :
    ∃ listed silent,
      t.build { o with readEnumerators := true } requested = .ok listed ∧
      t.build { o with readEnumerators := false } requested = .ok silent ∧
      silent.failures = listed.failures ∧ silent.archive.roots = listed.archive.roots ∧
      silent.archive.graph.unlisted = listed.archive.graph.unlisted ∧
      silent.archive.graph.unlisted = silent.archive.graph := by
  have sound := Table.validSound valid
  obtain ⟨ends, last, requests, ran⟩ :=
    buildRequests (o := { o with readEnumerators := true }) sound requested
  have others := requestsUnlisted requests
  rw [startUnlisted] at others
  have twice := Graph.unlistedTwice last.graph
  exact ⟨_, _, ran, requestsBuild others, rfl, rfl, twice, twice⟩

/- An enum that two records hold, one that is asked for itself, and a record that fails when the enum
of its first field has its node. -/
def paletteTable : Table where
  types := #[⟨.enum ⟨0⟩, none⟩, ⟨.enum ⟨1⟩, none⟩, ⟨.builtin .int128, none⟩, ⟨.record ⟨2⟩, none⟩,
    ⟨.record ⟨3⟩, none⟩, ⟨.reference ⟨1⟩, none⟩, ⟨.record ⟨4⟩, none⟩]
  decls := #[
    .enum "Color" (some ⟨32, [⟨"red", 0⟩, ⟨"crimson", 0⟩, ⟨"green", 1⟩]⟩),
    .enum "Shade" (some ⟨8, [⟨"dark", -1⟩, ⟨"light", 1⟩]⟩),
    .record ⟨.structKind, "Deep", "Deep", false⟩
      (some ⟨256, 128, [⟨"color", ⟨0⟩, 0, none⟩, ⟨"wide", ⟨2⟩, 128, none⟩], [], [], none⟩),
    .record ⟨.structKind, "Pixel", "Pixel", false⟩
      (some ⟨64, 32, [⟨"front", ⟨0⟩, 0, none⟩, ⟨"back", ⟨0⟩, 32, none⟩], [], [], none⟩),
    .record ⟨.structKind, "Brush", "Brush", false⟩
      (some ⟨128, 64, [⟨"tip", ⟨0⟩, 0, none⟩, ⟨"shade", ⟨5⟩, 64, none⟩], [], [], none⟩)]
  roots := [⟨"Deep", ⟨3⟩⟩, ⟨"Pixel", ⟨4⟩⟩, ⟨"Shade", ⟨1⟩⟩, ⟨"Brush", ⟨6⟩⟩]

theorem paletteUnseen :
    ∃ listed silent,
      paletteTable.build ⟨true, true, .lp64⟩ ["Deep", "Pixel", "Missing", "Shade", "Brush"] =
        .ok listed ∧
      paletteTable.build ⟨true, false, .lp64⟩ ["Deep", "Pixel", "Missing", "Shade", "Brush"] =
        .ok silent ∧
      silent.failures = listed.failures ∧ silent.archive.roots = listed.archive.roots ∧
      silent.archive.graph.unlisted = listed.archive.graph.unlisted ∧
      silent.archive.graph.unlisted = silent.archive.graph :=
  enumeratorsUnseen (o := ⟨true, true, .lp64⟩) (by decide)

example : (paletteTable.build ⟨true, true, .lp64⟩ ["Deep", "Pixel", "Missing"]).map
      (fun b => (b.failures, b.roots, b.session.graph.nodes.toList.drop 1)) =
    .ok ([.unsupported "Deep" (.builtin .int128), .unknown "Missing"], [⟨"Pixel", ⟨0⟩⟩],
      [.enum ⟨"Color", 4, .ofDeclared [⟨"red", 0⟩, ⟨"green", 1⟩]⟩]) := by
  decide +kernel

end Build
end ObjectLayout
