import ObjectLayout.Proofs.Expansion.Unfollowed
import ObjectLayout.Proofs.Session.Ending
import ObjectLayout.Proofs.Session.Stability

/-! What a call adds to a graph where addresses are not followed. Among the new nodes there is one of an
address at most: that of the type which was asked for, after all the others. -/
namespace ObjectLayout.Session
open Expansion

variable {t : Table} {o : Options}

theorem quietAdded {s last : Session} (quiet : Quiet s last) {added : List Node}
    (same : last.graph.nodes.toList = s.graph.nodes.toList ++ added) :
    ∀ n ∈ added, n.isAddress = false := by
  intro n member
  by_contra address
  obtain ⟨i, at_i⟩ := List.getElem?_of_mem member
  have node : last.graph.node? ⟨s.graph.nodes.size + i⟩ = some n := by
    rw [Graph.node?, ← Array.getElem?_toList, same, List.getElem?_append_right (by simp)]
    simpa using at_i
  have inside := Graph.nodeInside (quiet.older _ n node (by simpa using address))
  exact absurd inside (Nat.not_lt.mpr (Nat.le_add_right _ i))

inductive Adds (t : Table) (s : Session) (ty : TypeId) :
    Except Unsupported NodeId → List Node → Prop
  | plain {a added} (plain : ∀ n ∈ added, n.isAddress = false) : Adds t s ty a added
  | address {older n target} (plain : ∀ n ∈ older, n.isAddress = false)
      (path : t.Desugars ty target) (address : t.IsAddress target) (fresh : s.lookup target = none) :
      Adds t s ty (.ok ⟨s.graph.nodes.size + older.length⟩) (older ++ [n])

theorem singleAdds {s last : Session} {ty : TypeId} {id : NodeId}
    (single : Single t { s with depth := 0 } ty id last) {added : List Node}
    (same : last.graph.nodes.toList = s.graph.nodes.toList ++ added) : Adds t s ty (.ok id) added := by
  cases single with
  | quiet quiet => exact .plain (quietAdded quiet same)
  | @address target mid n path address fresh quiet =>
    have pushed : (mid.enter target n).graph.nodes.toList = mid.graph.nodes.toList ++ [n] := by
      simp [enter, Graph.push]
    have size := quiet.size
    obtain ⟨older, before⟩ : s.graph.nodes.toList <+: mid.graph.nodes.toList := by
      refine List.prefix_of_prefix_length_le ⟨added, same.symm⟩ ⟨[n], pushed.symm⟩ ?_
      simpa using size
    have ends : added = older ++ [n] := by
      rw [pushed, ← before, List.append_assoc] at same
      exact (List.append_cancel_left same).symm
    have place : mid.graph.nodes.size = s.graph.nodes.size + older.length := by
      simpa using (congrArg List.length before).symm
    rw [ends, place]
    exact .address (quietAdded quiet before.symm) path address fresh

theorem callAdds (sound : t.Sound) (unchased : o.chasePointers = false) {precise : Prop} {s : Session}
    (ready : Ready t o precise s) {call : Call} (inside : call.ty.raw < t.types.size) :
    ∃ a s' added, s.answer t o call = .ok (a, s') ∧
      s'.graph.nodes.toList = s.graph.nodes.toList ++ added ∧ Adds t s call.ty a added := by
  obtain ⟨a, last, ran, outcome⟩ := expandOutcome sound ready inside
  have nodes : (last.finish call a).graph.nodes = last.graph.nodes := by
    rcases finishCases last call a with same | ⟨id, _, same⟩
    · rw [same]
    · rw [same, addRoot, Graph.addRoot]
  have answered : s.answer t o call = .ok (a, last.finish call a) := by
    rw [answerRuns, ran]
    rfl
  cases outcome with
  | refused path =>
    refine ⟨_, _, [], answered, ?_, .plain (fun _ member => absurd member List.not_mem_nil)⟩
    rw [nodes, refusedGraph ready path, List.append_nil]
  | @node id _ path =>
    obtain ⟨added, same⟩ := (grownExtends (advanceGrown path)).nodes
    refine ⟨_, _, added, answered, by rw [nodes, same], singleAdds ?_ same.symm⟩
    have single := expandSingle (t := t) (s := { s with depth := 0 }) unchased rfl (fuel t) call.ty
    unfold expand at ran
    unfold Meets at single
    cases run : Expansion.expand t o (fuel t) call.ty { s with depth := 0 } with
    | ok place reached =>
      simp only [run] at ran single
      cases ran
      exact single
    | error e reached =>
      simp only [run] at ran
      cases e <;> cases ran

theorem plainCount {added : List Node} (plain : ∀ n ∈ added, n.isAddress = false) :
    added.countP Node.isAddress = 0 :=
  List.countP_eq_zero.mpr (fun n member => by simp [plain n member])

theorem addressLast {g : Graph} {calls : List Call} {answers} {s : Session} {call : Call}
    (valid : t.validate = .ok ()) (unchased : o.chasePointers = false) (slots : g.SlotsResolve)
    (ran : run t o (.start g) calls = .ok (answers, s)) (inside : call.ty.raw < t.types.size) :
    ∃ a s' added, s.answer t o call = .ok (a, s') ∧
      s'.graph.nodes.toList = s.graph.nodes.toList ++ added ∧
      added.countP Node.isAddress ≤ 1 ∧
      ∀ n ∈ added, n.isAddress = true →
        (∃ target, t.Desugars call.ty target ∧ t.IsAddress target ∧ s.lookup target = none) ∧
        added.getLast? = some n ∧ a = .ok ⟨s'.graph.nodes.size - 1⟩ := by
  have sound := Table.validSound valid
  have settled : Settled t o False s := runSettled sound (startSettled slots) ran
  obtain ⟨a, s', added, ended, same, adds⟩ := callAdds sound unchased settled.ready inside
  refine ⟨a, s', added, ended, same, ?_⟩
  cases adds with
  | plain plain =>
    refine ⟨by simp [plainCount plain], fun n member isAddress => ?_⟩
    rw [plain n member] at isAddress
    contradiction
  | @address older last target plain path address fresh =>
    have size : s'.graph.nodes.size - 1 = s.graph.nodes.size + older.length := by
      have lengths := congrArg List.length same
      simp only [List.length_append, Array.length_toList, List.length_singleton] at lengths
      omega
    constructor
    · rw [List.countP_append, plainCount plain, Nat.zero_add]
      exact List.countP_le_length
    · intro n member isAddress
      rcases List.mem_append.mp member with before | here
      · rw [plain n before] at isAddress
        contradiction
      · cases List.mem_singleton.mp here
        exact ⟨⟨target, path, address, fresh⟩, List.getLast?_concat .., by rw [size]⟩

theorem sampleAddressLast :
    ∃ a s' added, sampleSession.answer sampleTable sampleOptions (.expandRoot ⟨5⟩) = .ok (a, s') ∧
      s'.graph.nodes.toList = sampleSession.graph.nodes.toList ++ added ∧
      added.countP Node.isAddress ≤ 1 ∧
      ∀ n ∈ added, n.isAddress = true →
        (∃ target, sampleTable.Desugars ⟨5⟩ target ∧ sampleTable.IsAddress target ∧
          sampleSession.lookup target = none) ∧
        added.getLast? = some n ∧ a = .ok ⟨s'.graph.nodes.size - 1⟩ :=
  addressLast sampleValid rfl Graph.emptySlotsResolve sampleRun (by decide)

end ObjectLayout.Session
