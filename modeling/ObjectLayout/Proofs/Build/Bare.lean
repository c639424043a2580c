import ObjectLayout.Proofs.Build.Verdicts
import ObjectLayout.Proofs.Expansion.Bare

/-! Sugar is never seen in a build. The table without it gives the same graph, node for node, and the
same failures, whatever is requested and with whatever options. -/
namespace ObjectLayout

open Expansion

variable {t : Table} {o : Options}

namespace Session

theorem wholeFree {s : Session} (h : Whole t o s) : SugarFree t s := by
  rintro ty ⟨id, looked⟩
  exact ((h.settled.ready.coherent trivial).entered ty id looked).plain

theorem expandBared (sound : t.Sound) (unspelled : t.Unspelled) {s : Session} (h : Whole t o s)
    {ty : TypeId} (inside : ty.raw < t.types.size) :
    s.expand t.bared o (t.bare ty) = s.expand t o ty := by
  have room : fuel t.bared = fuel t := by simp only [fuel, Table.bared, Table.sizeRedirect]
  have free : SugarFree t s := wholeFree h
  have both := expandMirrors (o := o) sound unspelled (fuel t) ty { s with depth := 0 } free
  obtain ⟨a, last, ended, _⟩ := expandOutcome sound h.settled.ready inside
  unfold expand at ended ⊢
  unfold Mirrors Meets at both
  rw [room]
  cases run : Expansion.expand t o (fuel t) ty { s with depth := 0 } with
  | ok id last =>
    simp only [run] at both
    simp only [both.1]
  | error e last =>
    simp only [run] at both ended
    cases e with
    | unsupported cause => simp only [both cause rfl]
    | fault f => simp only [reduceCtorEq] at ended

end Session

namespace Build

open Session

theorem endsBared (sound : t.Sound) (unspelled : t.Unspelled) {s s' : Session} (h : Whole t o s)
    {name : String} {e : End} (ends : Ends t o s name e s') : Ends t.bared o s name e s' := by
  have known : ∀ {ty}, t.lookup name = some ty → t.bared.lookup name = some (t.bare ty) := by
    intro ty found
    rw [Table.bared, Table.lookupRedirect, found]
    rfl
  have same : ∀ {ty a}, t.lookup name = some ty → s.answer t o (.expandRoot ty) = .ok (a, s') →
      s.answer t.bared o (.expandRoot (t.bare ty)) = .ok (a, s') := by
    intro ty a found ended
    rw [answer, expandRoot, expandBared sound unspelled h (lookupInside sound found)]
    exact ended
  cases ends with
  | unknown absent =>
    refine .unknown ?_
    rw [Table.bared, Table.lookupRedirect, absent]
    rfl
  | refused found ended => exact .refused (known found) (same found ended)
  | built found ended => exact .built (known found) (same found ended)

theorem requestsBared (sound : t.Sound) (unspelled : t.Unspelled) {s last : Session}
    {names : List String} {ends : List End} (requests : Requests t o s names ends last)
    (h : Whole t o s) : Requests t.bared o s names ends last := by
  induction requests with
  | nil s => exact .nil s
  | cons head tail ih =>
    exact .cons (endsBared sound unspelled h head) (ih (endsWhole sound h head))

theorem namesBared (t : Table) (requested : List String) :
    names t.bared requested = names t requested := by
  simp only [names, Table.bared, Table.redirect, List.map_map]
  rfl

theorem sugarUnseen {requested : List String} (valid : t.validate = .ok ())
    (unspelled : t.Unspelled) :
    t.bared.validate = .ok () ∧
      ∃ b, t.build o requested = .ok b ∧ t.bared.build o requested = .ok b := by
  have sound := Table.validSound valid
  obtain ⟨ends, last, requests, ran⟩ := buildRequests (o := o) sound requested
  have others := requestsBared sound unspelled requests emptyWhole
  rw [← namesBared] at others
  exact ⟨Table.soundValid (Table.baredSound sound), _, ran, requestsBuild others⟩

/- Sugar of sugar around an exported record, its base, its argument, its fields, an element without a
definition, and a type that no layout exists for. -/
def layeredTable : Table where
  types := #[⟨.builtin .int, none⟩, ⟨.sugar .elaborated ⟨0⟩, none⟩, ⟨.sugar .substituted ⟨1⟩, none⟩,
    ⟨.record ⟨0⟩, none⟩, ⟨.sugar .elaborated ⟨3⟩, none⟩, ⟨.sugar .specialization ⟨4⟩, none⟩,
    ⟨.record ⟨1⟩, none⟩, ⟨.sugar .elaborated ⟨6⟩, none⟩, ⟨.array ⟨7⟩ 4, none⟩,
    ⟨.sugar .substituted ⟨8⟩, none⟩, ⟨.pointer ⟨9⟩, none⟩, ⟨.sugar .elaborated ⟨10⟩, none⟩,
    ⟨.record ⟨2⟩, none⟩, ⟨.sugar .specialization ⟨12⟩, none⟩, ⟨.sugar .elaborated ⟨13⟩, none⟩,
    ⟨.builtin .int128, none⟩, ⟨.sugar .elaborated ⟨15⟩, none⟩, ⟨.reference ⟨16⟩, none⟩]
  decls := #[
    .record ⟨.structKind, "Root", "Root", false⟩ (some ⟨32, 32, [⟨"tag", ⟨2⟩, 0, none⟩], [], [], none⟩),
    .record ⟨.structKind, "Hidden", "Hidden", false⟩ none,
    .record ⟨.classKind, "Box", "Box<int>", false⟩
      (some ⟨128, 64, [⟨"next", ⟨11⟩, 64, none⟩], [⟨⟨5⟩, 0⟩], [],
        some [.type ⟨2⟩ false, .integral ⟨1⟩ "4"]⟩)]
  roots := [⟨"Box", ⟨14⟩⟩, ⟨"Wide", ⟨17⟩⟩, ⟨"Link", ⟨11⟩⟩]

theorem layeredUnseen :
    layeredTable.bare ⟨14⟩ = ⟨12⟩ ∧ layeredTable.bared.validate = .ok () ∧
      ∃ b, layeredTable.build .standard ["Box", "Wide", "Missing", "Link"] = .ok b ∧
        layeredTable.bared.build .standard ["Box", "Wide", "Missing", "Link"] = .ok b :=
  ⟨by decide, sugarUnseen (by decide) (by decide)⟩

example : (layeredTable.build .standard ["Box", "Wide", "Missing", "Link"]).map
      (fun b => (b.session.graph.nodes.size, b.roots, b.failures)) =
    .ok (6, [⟨"Box", ⟨0⟩⟩, ⟨"Link", ⟨5⟩⟩],
      [.unsupported "Wide" (.builtin .int128), .unknown "Missing"]) := by
  decide +kernel

end Build
end ObjectLayout
