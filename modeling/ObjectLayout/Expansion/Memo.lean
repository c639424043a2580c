import ObjectLayout.Handle

/-! Which node a type has been given. A type is entered once, when its node is allocated. -/
namespace ObjectLayout

structure Memo where
  entries : List (TypeId × NodeId)
  deriving DecidableEq, Repr

namespace Memo

def empty : Memo := ⟨[]⟩

def find? (m : Memo) (ty : TypeId) : Option NodeId := m.entries.lookup ty

def insert (m : Memo) (ty : TypeId) (id : NodeId) : Memo := ⟨(ty, id) :: m.entries⟩

def keep (m : Memo) (test : NodeId → Bool) : Memo := ⟨m.entries.filter (fun e => test e.2)⟩

theorem findEmpty (ty : TypeId) : empty.find? ty = none := rfl

theorem findInsert (m : Memo) (ty other : TypeId) (id : NodeId) :
    (m.insert ty id).find? other = if other = ty then some id else m.find? other := by
  by_cases h : other = ty
  · simp [find?, insert, h]
  · have distinct : (other == ty) = false := beq_false_of_ne h
    simp [find?, insert, List.lookup_cons, distinct, h]

end Memo
end ObjectLayout
