import ObjectLayout.Table.Basic

/-! Questions about the types of a table: whether a type is complete, how it is shown, and its
layout. All of them follow the chain of wrappers from a type down to the type that decides. -/
namespace ObjectLayout.Table

structure Chain where
  links : List TypeEntry
  base : TypeEntry
  deriving DecidableEq

def entry (t : Table) (ty : TypeId) : Except Fault TypeEntry :=
  match t.entry? ty with
  | some e => .ok e
  | none => .error (.missingType ty)

def decl (t : Table) (d : DeclId) : Except Fault Declaration :=
  match t.decl? d with
  | some x => .ok x
  | none => .error (.missingDecl d)

def follow (t : Table) (next : TypeEntry → Option TypeId) : Nat → TypeId → Except Fault Chain
  | 0, _ => .error .endless
  | fuel + 1, ty => do
      let e ← t.entry ty
      match next e with
      | none => .ok ⟨[], e⟩
      | some inner => do
          let c ← t.follow next fuel inner
          .ok ⟨e :: c.links, c.base⟩

/- A chain that meets no type twice has at most one entry for each type of the table. -/
def chain (t : Table) (next : TypeEntry → Option TypeId) (ty : TypeId) : Except Fault Chain :=
  t.follow next (t.types.size + 1) ty

def layoutNext (e : TypeEntry) : Option TypeId :=
  match e.type with
  | .array inner _ | .synonym _ _ inner | .sugar _ inner => some inner
  | _ => none

def nameNext (e : TypeEntry) : Option TypeId :=
  match e.spelling, e.type with
  | some _, _ => none
  | none, .pointer inner | none, .reference inner | none, .array inner _ | none, .sugar _ inner =>
      some inner
  | none, _ => none

def recordDef (t : Table) (d : DeclId) : Except Fault (Option RecordDef) := do
  match ← t.decl d with
  | .record _ definition => .ok definition
  | .enum _ _ => .ok none

def enumDef (t : Table) (d : DeclId) : Except Fault (Option EnumDef) := do
  match ← t.decl d with
  | .enum _ definition => .ok definition
  | .record _ _ => .ok none

def isDefined (t : Table) (d : DeclId) : Except Fault Bool := do
  match ← t.decl d with
  | .record _ definition => .ok definition.isSome
  | .enum _ definition => .ok definition.isSome

def enumName (t : Table) (d : DeclId) : Except Fault String := do
  match ← t.decl d with
  | .enum name _ => .ok name
  | .record info _ => .ok info.name

/- An enum that is asked for as a record is a struct with the enum's name. -/
def recordInfo (t : Table) (d : DeclId) : Except Fault RecordInfo := do
  match ← t.decl d with
  | .record info _ => .ok info
  | .enum name _ => .ok ⟨.structKind, name, name, false⟩

def ofRecordDef {α : Type} (t : Table) (d : DeclId) (missing : α) (part : RecordDef → α) :
    Except Fault α := do
  match ← t.recordDef d with
  | some definition => .ok (part definition)
  | none => .ok missing

def fields (t : Table) (d : DeclId) : Except Fault (List Field) :=
  t.ofRecordDef d [] RecordDef.fields

def bases (t : Table) (d : DeclId) : Except Fault (List Base) :=
  t.ofRecordDef d [] RecordDef.bases

def methods (t : Table) (d : DeclId) : Except Fault (List Method) :=
  t.ofRecordDef d [] RecordDef.methods

def templateArgs (t : Table) (d : DeclId) : Except Fault (Option (List TemplateArgument)) :=
  t.ofRecordDef d none RecordDef.templateArgs

def enumerators (t : Table) (d : DeclId) : Except Fault (List Enumerator) := do
  match ← t.enumDef d with
  | some definition => .ok definition.enumerators
  | none => .ok []

/-- Whether a type has a definition at this point. An array without a length never has one; `void`
counts as complete. -/
def isComplete (t : Table) (ty : TypeId) : Except Fault Bool := do
  let c ← t.chain layoutNext ty
  match c.base.type with
  | .record d | .enum d => t.isDefined d
  | .unmodelled .incompleteArray => .ok false
  | _ => .ok true

def baseName (t : Table) (e : TypeEntry) : Except Fault String :=
  match e.spelling, e.type with
  | some s, _ => .ok s
  | none, .builtin kind => .ok kind.spelling
  | none, .record d => do
      match ← t.decl d with
      | .record info _ => .ok info.qualifiedName
      | .enum name _ => .ok name
  | none, .enum d => t.enumName d
  | none, .synonym _ name _ => .ok name
  | none, type => .ok type.name

def nameSuffix (e : TypeEntry) : String :=
  match e.type with
  | .pointer _ => "*"
  | .reference _ => "&"
  | .array _ length => s!"[{length.toNat}]"
  | _ => ""

def displayName (t : Table) (ty : TypeId) : Except Fault String := do
  let c ← t.chain nameNext ty
  let base ← t.baseName c.base
  .ok (c.links.foldr (fun e name => name ++ nameSuffix e) base)

def saturatingMul (a b : UInt64) : UInt64 :=
  if a.toNat * b.toNat < UInt64.size then a * b else UInt64.ofNat (UInt64.size - 1)

def baseSize (t : Table) (e : TypeEntry) : Except Fault UInt64 :=
  match e.type with
  | .builtin kind => .ok kind.bits
  | .record d => t.ofRecordDef d 0 RecordDef.sizeBits
  | .enum d => do
      match ← t.enumDef d with
      | some definition => .ok definition.sizeBits
      | none => .ok 0
  | .pointer _ | .reference _ => .ok 64
  | _ => .ok 0

def scaleSize (e : TypeEntry) (size : UInt64) : UInt64 :=
  match e.type with
  | .array _ length => saturatingMul size length
  | _ => size

def sizeInBits (t : Table) (ty : TypeId) : Except Fault UInt64 := do
  let c ← t.chain layoutNext ty
  let size ← t.baseSize c.base
  .ok (c.links.foldr scaleSize size)

def baseAlign (t : Table) (e : TypeEntry) : Except Fault UInt64 :=
  match e.type with
  | .builtin kind => .ok (max kind.bits 8)
  | .record d => t.ofRecordDef d 0 RecordDef.alignBits
  | .enum _ => t.baseSize e
  | .pointer _ | .reference _ => .ok 64
  | _ => .ok 0

def alignInBits (t : Table) (ty : TypeId) : Except Fault UInt64 := do
  let c ← t.chain layoutNext ty
  t.baseAlign c.base

end ObjectLayout.Table
