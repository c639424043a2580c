import ObjectLayout.Table.Basic

/-! The check that every handle of a table resolves. A table that passes has wrappers that refer to
earlier types only, so a chain of wrappers ends, and declarations that are of the kind their types
say. Definitions are checked where a type leads to them. -/
namespace ObjectLayout

inductive TableError where
  | unknownType (ty : TypeId)
  | unknownDecl (decl : DeclId)
  | notARecord (ty : TypeId)
  | notAnEnum (ty : TypeId)
  | forwardReference (ty target : TypeId)
  deriving DecidableEq, Repr

def TableError.message : TableError → String
  | .unknownType ty => s!"unknown type {ty.text}"
  | .unknownDecl decl => s!"unknown declaration {decl.text}"
  | .notARecord ty => s!"{ty.text} is not a record"
  | .notAnEnum ty => s!"{ty.text} is not an enum"
  | .forwardReference ty target =>
      s!"{ty.text} wraps {target.text}, which is not declared before it"

namespace Table

def checkHandle (t : Table) (ty : TypeId) : Except TableError Unit :=
  if ty.raw < t.types.size then .ok () else .error (.unknownType ty)

def checkDef (t : Table) (d : RecordDef) : Except TableError Unit := d.mentions.forM t.checkHandle

def checkType (t : Table) (ty : TypeId) (type : TypeClass) : Except TableError Unit :=
  match type with
  | .record decl =>
      match t.decl? decl with
      | some (.record _ (some d)) => t.checkDef d
      | some (.record _ none) => .ok ()
      | some (.enum _ _) => .error (.notARecord ty)
      | none => .error (.unknownDecl decl)
  | .enum decl =>
      match t.decl? decl with
      | some (.enum _ _) => .ok ()
      | some (.record _ _) => .error (.notAnEnum ty)
      | none => .error (.unknownDecl decl)
  | type =>
      match type.wrapped with
      | some target => if target.raw < ty.raw then .ok () else .error (.forwardReference ty target)
      | none => .ok ()

def validate (t : Table) : Except TableError Unit := do
  t.types.toList.zipIdx.forM (fun (entry, i) => t.checkType ⟨i⟩ entry.type)
  t.roots.forM (fun root => t.checkHandle root.ty)

end Table
end ObjectLayout
