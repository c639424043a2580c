import ObjectLayout.Expansion.Basic

/-! A session expands one type after the other into one graph. A type that cannot be expanded leaves
the graph as it was: what was allocated for it is dropped, and so are the types that were entered
for dropped nodes. -/
namespace ObjectLayout

namespace Session
open Expansion

def start (g : Graph) : Session := ⟨g, .empty, 0⟩

def lookup (s : Session) (ty : TypeId) : Option NodeId := s.memo.find? ty

def rollback (s : Session) (m : Mark) : Session where
  graph := s.graph.rollback m
  memo := s.memo.keep (fun id => !m.isNewer id)
  depth := s.depth

abbrev Answer := Except Unsupported NodeId × Session

/- The node of a type. A fault is no outcome of a table that is in order; where the table is not,
the session is left as it was. -/
def expand (t : Table) (o : Options) (s : Session) (ty : TypeId) : Except Fault Answer :=
  match Expansion.expand t o (fuel t) ty { s with depth := 0 } with
  | .ok id s' => .ok (.ok id, s')
  | .error (.unsupported cause) s' => .ok (.error cause, s'.rollback s.graph.mark)
  | .error (.fault f) _ => .error f

def addRoot (s : Session) (id : NodeId) : Session := { s with graph := s.graph.addRoot id }

def expandRoot (t : Table) (o : Options) (s : Session) (ty : TypeId) : Except Fault Answer := do
  match ← expand t o s ty with
  | (.ok id, s') => .ok (.ok id, s'.addRoot id)
  | (.error cause, s') => .ok (.error cause, s')

end Session
end ObjectLayout
