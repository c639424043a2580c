import ObjectLayout.Table.Check

/-! Building a table step by step. Records and enums are declared first and defined later, so that
their definitions can mention them; a later definition replaces an earlier one. A handle that a
step returns resolves in the table it leaves behind. -/
namespace ObjectLayout.Table

def push (t : Table) (type : TypeClass) (spelling : Option String) : TypeId × Table :=
  (⟨t.types.size⟩, { t with types := t.types.push ⟨type, spelling⟩ })

def add (t : Table) (type : TypeClass) : TypeId × Table := t.push type none

def builtin (t : Table) (kind : Builtin) : TypeId × Table :=
  match t.types.findIdx? (fun e => e.type = .builtin kind) with
  | some i => (⟨i⟩, t)
  | none => t.add (.builtin kind)

def declareRecord (t : Table) (info : RecordInfo) : TypeId × Table :=
  { t with decls := t.decls.push (.record info none) }.add (.record ⟨t.decls.size⟩)

def declareEnum (t : Table) (name : String) : TypeId × Table :=
  { t with decls := t.decls.push (.enum name none) }.add (.enum ⟨t.decls.size⟩)

def setDecl (t : Table) (decl : DeclId) (d : Declaration) : Table :=
  { t with decls := t.decls.setIfInBounds decl.raw d }

def defineRecord (t : Table) (ty : TypeId) (d : RecordDef) : Except TableError Table :=
  match t.entry? ty with
  | none => .error (.unknownType ty)
  | some ⟨.record decl, _⟩ =>
      match t.decl? decl with
      | some (.record info _) => .ok (t.setDecl decl (.record info (some d)))
      | some (.enum _ _) => .error (.notARecord ty)
      | none => .error (.unknownDecl decl)
  | some _ => .error (.notARecord ty)

def defineEnum (t : Table) (ty : TypeId) (d : EnumDef) : Except TableError Table :=
  match t.entry? ty with
  | none => .error (.unknownType ty)
  | some ⟨.enum decl, _⟩ =>
      match t.decl? decl with
      | some (.enum name _) => .ok (t.setDecl decl (.enum name (some d)))
      | some (.record _ _) => .error (.notAnEnum ty)
      | none => .error (.unknownDecl decl)
  | some _ => .error (.notAnEnum ty)

def addRoot (t : Table) (name : String) (ty : TypeId) : Table :=
  { t with roots := t.roots ++ [⟨name, ty⟩] }

end ObjectLayout.Table
