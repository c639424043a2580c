import ObjectLayout.DataModel

/-! What a session is asked to do beyond the least. -/
namespace ObjectLayout

structure Options where
  chasePointers : Bool
  readEnumerators : Bool
  model : DataModel
  deriving DecidableEq, Repr

def Options.standard : Options := ⟨false, false, .lp64⟩

/-- Whether a pointer is followed. The type that was asked for has depth one, and a pointer there is
what the caller wants to see; deeper ones are stubbed unless the session chases them. -/
def Options.follows (o : Options) (depth : Nat) : Bool := depth = 1 || o.chasePointers

end ObjectLayout
