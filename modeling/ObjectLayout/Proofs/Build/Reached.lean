import ObjectLayout.Proofs.Build.Requests
import ObjectLayout.Proofs.Expansion.Gathering
import ObjectLayout.Proofs.Graph.Census
import ObjectLayout.Proofs.Session.Layers
import ObjectLayout.Proofs.Session.Residue

/-! A graph that was built holds nothing but what its roots lead to. What a request allocates is below
the node that it ends with, which becomes a root; a request that fails leaves the graph as it was. -/
namespace ObjectLayout

namespace Session

open Expansion

variable {t : Table} {o : Options}

theorem expandGathered (sound : t.Sound) {s s' : Session} (ready : Ready t o True s) {ty : TypeId}
    {id : NodeId} (ended : s.expand t o ty = .ok (.ok id, s')) :
    Grown s s' ∧ Gathered s s' [id] := by
  have inside := expandInside ready.resolved ended
  have down : Advance t o s { s with depth := 0 } := .single (.level 0)
  have visits := expandGathers (o := o) sound (fuel t)
  have top := readyAfter ready down
  have both := meetsBoth (visits.answers _ ty top inside (costFuel _ inside))
    (visits.gathers _ ty top inside (costFuel _ inside))
  unfold expand at ended
  unfold Meets at both
  cases run : Expansion.expand t o (fuel t) ty { s with depth := 0 } with
  | ok top last =>
    simp only [run] at ended both
    cases ended
    exact ⟨advanceGrown (advanceTrans down both.1.progress.path), both.2⟩
  | error e last =>
    simp only [run] at ended
    cases e <;> cases ended

theorem answerRooted (sound : t.Sound) {s s' : Session} (ready : Ready t o True s)
    (h : s.graph.Rooted) {ty : TypeId} {a} (ended : s.answer t o (.expandRoot ty) = .ok (a, s')) :
    s'.graph.Rooted := by
  cases a with
  | error cause =>
    rw [(refusalAhead sound ready ended).graph]
    exact h
  | ok id =>
    obtain ⟨last, expanded, rfl⟩ := answerExpands ended
    obtain ⟨grown, gathered⟩ := expandGathered sound ready expanded
    intro other inside
    rcases Nat.lt_or_ge other.raw s.graph.nodes.size with old | new
    · obtain ⟨root, member, reached⟩ := h other old
      exact ⟨root, List.mem_append_left _ (grown.graph.roots ▸ member),
        belowKept (fun _ _ => pointsGrown grown) reached⟩
    · obtain ⟨top, member, reached⟩ := gathered other new inside
      exact ⟨top, List.mem_append_right _ member, reached⟩

end Session

namespace Build

open Session

variable {t : Table} {o : Options}

structure Tidy (t : Table) (o : Options) (s : Session) : Prop where
  settled : Settled t o True s
  layered : s.graph.Layered
  rooted : s.graph.Rooted

theorem emptyTidy : Tidy t o (.start .empty) :=
  ⟨emptySettled, Graph.emptyLayered, fun _ inside => absurd inside (Nat.not_lt_zero _)⟩

theorem endsTidy (sound : t.Sound) {s s' : Session} (h : Tidy t o s) {name : String} {e : End}
    (ends : Ends t o s name e s') : Tidy t o s' := by
  have answered : ∀ {ty a}, s.answer t o (.expandRoot ty) = .ok (a, s') → Tidy t o s' :=
    fun ended => ⟨answerSettled sound h.settled ended,
      answerLayered sound h.settled.ready h.layered ended,
      answerRooted sound h.settled.ready h.rooted ended⟩
  cases ends with
  | unknown absent => exact h
  | refused found ended => exact answered ended
  | built found ended => exact answered ended

theorem buildReached {requested : List String} (valid : t.validate = .ok ()) :
    ∃ b c, t.build o requested = .ok b ∧
      (∀ id, id.raw < b.archive.graph.nodes.size →
        ∃ root ∈ b.archive.graph.roots, id ∈ b.archive.graph.below root) ∧
      b.archive.graph.census = .ok c ∧ c.total = b.archive.graph.nodes.size := by
  have sound := Table.validSound valid
  obtain ⟨ends, last, requests, built⟩ := buildRequests (o := o) sound requested
  have tidy := requestsKeep (P := Tidy t o) (fun _ _ _ _ h ends => endsTidy sound h ends) requests
    emptyTidy
  obtain ⟨c, counted, total⟩ := Graph.censusRooted tidy.layered.closed tidy.rooted
  exact ⟨_, c, built, tidy.rooted, counted, total⟩

/- `Wide` fails when its own node and those of a part are there, and `Hidden` is not exported. -/
theorem sampleBuildReached :
    ∃ b c, sampleTable.build sampleOptions ["Wide", "Ring", "Hidden", "Ring"] = .ok b ∧
      (∀ id, id.raw < b.archive.graph.nodes.size →
        ∃ root ∈ b.archive.graph.roots, id ∈ b.archive.graph.below root) ∧
      b.archive.graph.census = .ok c ∧ c.total = b.archive.graph.nodes.size :=
  buildReached sampleValid

end Build
end ObjectLayout
