/-! Names of things by position: types and declarations of a table, nodes of a graph. A handle is
only a number, so a table that was read from outside may hold one that names nothing; what happens
when such a handle is followed is a `Fault`. -/
namespace ObjectLayout

structure TypeId where
  raw : Nat
  deriving DecidableEq, Repr, Inhabited

structure DeclId where
  raw : Nat
  deriving DecidableEq, Repr, Inhabited

structure NodeId where
  raw : Nat
  deriving DecidableEq, Repr, Inhabited

def TypeId.text (ty : TypeId) : String := s!"type#{ty.raw}"

def DeclId.text (decl : DeclId) : String := s!"decl#{decl.raw}"

def NodeId.text (id : NodeId) : String := s!"node#{id.raw}"

/- Why a question about a table or a graph has no answer: a handle on the way names nothing, or
the way never ends. -/
inductive Fault where
  | missingType (ty : TypeId)
  | missingDecl (decl : DeclId)
  | missingNode (id : NodeId)
  | endless
  deriving DecidableEq, Repr

def Fault.message : Fault → String
  | .missingType ty => s!"no {ty.text}"
  | .missingDecl decl => s!"no {decl.text}"
  | .missingNode id => s!"no {id.text}"
  | .endless => "the chain of types never ends"

def handleBound : Nat := UInt32.size

end ObjectLayout
