import ObjectLayout.Table.Check
import ObjectLayout.Json.Parser
import ObjectLayout.Json.Printer
import ObjectLayout.Json.Shape

/-! Tables as JSON. What is written can be read back; what can be read is more than what is written,
as fields may be left out, given in any order, or listed in an array. -/
namespace ObjectLayout
open Json (text natural members tagged listOf ofOption slots choice plainChoice)

namespace Json

def typeId? (v : Json) : Option TypeId := (v.below? handleBound).map TypeId.mk

def declId? (v : Json) : Option DeclId := (v.below? handleBound).map DeclId.mk

def word (n : UInt64) : Json := natural n.toNat

end Json

def TypeId.toJson (ty : TypeId) : Json := natural ty.raw

def DeclId.toJson (decl : DeclId) : Json := natural decl.raw

def RecordKind.tag : RecordKind → String
  | .structKind => "Struct"
  | .classKind => "Class"
  | .unionKind => "Union"

def RecordKind.ofTag? (s : String) : Option RecordKind :=
  [RecordKind.structKind, .classKind, .unionKind].find? (fun kind => kind.tag = s)

def Category.plain : List Category :=
  [.rvalueReference, .memberPointer, .functionProto, .incompleteArray, .variableArray,
   .dependentSizedArray, .vector, .atomic, .decltype, .templateTypeParm]

def Category.ofTag? (s : String) : Option Category :=
  Category.plain.find? (fun category => category.name = s)

def TemplateNameKind.all : List TemplateNameKind :=
  [.overloadedTemplate, .assumedTemplate, .qualifiedTemplate, .dependentTemplate,
   .substTemplateTemplateParm, .substTemplateTemplateParmPack, .usingTemplate]

def TemplateNameKind.ofTag? (s : String) : Option TemplateNameKind :=
  TemplateNameKind.all.find? (fun kind => kind.name = s)

def ArgumentKind.all : List ArgumentKind :=
  [.declaration, .nullPtr, .templateExpansion, .expression, .pack]

def ArgumentKind.ofTag? (s : String) : Option ArgumentKind :=
  ArgumentKind.all.find? (fun kind => kind.name = s)

def TypeClass.toJson : TypeClass → Json
  | .builtin kind => tagged "Builtin" (text kind.tag)
  | .record decl => tagged "Record" decl.toJson
  | .enum decl => tagged "Enum" decl.toJson
  | .pointer pointee => tagged "Pointer" (members [("pointee", pointee.toJson)])
  | .reference pointee => tagged "LValueReference" (members [("pointee", pointee.toJson)])
  | .array element length =>
      tagged "ConstantArray" (members [("element", element.toJson), ("len", Json.word length)])
  | .synonym form name target =>
      tagged form.name (members [("name", text name), ("underlying", target.toJson)])
  | .sugar .elaborated target => tagged "Elaborated" (members [("named", target.toJson)])
  | .sugar .substituted target =>
      tagged "SubstTemplateTypeParm" (members [("replacement", target.toJson)])
  | .sugar .specialization target =>
      tagged "TemplateSpecialization" (members [("desugared", target.toJson)])
  | .dependentSpecialization => tagged "TemplateSpecialization" (members [("desugared", .null)])
  | .unmodelled (.other name) => tagged "Other" (text name)
  | .unmodelled category => text category.name

def TypeClass.wrapper? (name : String) (make : TypeId → TypeClass) (v : Json) :
    Option TypeClass := do
  match ← slots [name] v with
  | [target] => (target.required Json.typeId?).map make
  | _ => none

def TypeClass.synonym? (form : AliasForm) (v : Json) : Option TypeClass := do
  match ← slots ["name", "underlying"] v with
  | [name, target] => do
      let name ← name.required Json.toText?
      let target ← target.required Json.typeId?
      some (.synonym form name target)
  | _ => none

def TypeClass.ofJson? (v : Json) : Option TypeClass := do
  let (name, v) ← choice v
  match name with
  | "Builtin" => (plainChoice Builtin.ofTag? v).map .builtin
  | "Record" => (Json.declId? v).map .record
  | "Enum" => (Json.declId? v).map .enum
  | "Pointer" => wrapper? "pointee" .pointer v
  | "LValueReference" => wrapper? "pointee" .reference v
  | "ConstantArray" => do
      match ← slots ["element", "len"] v with
      | [element, length] => do
          let element ← element.required Json.typeId?
          let length ← length.required Json.word64?
          some (.array element length)
      | _ => none
  | "Typedef" => synonym? .typedefDecl v
  | "Using" => synonym? .usingDecl v
  | "Elaborated" => wrapper? "named" (.sugar .elaborated) v
  | "SubstTemplateTypeParm" => wrapper? "replacement" (.sugar .substituted) v
  | "TemplateSpecialization" => do
      match ← slots ["desugared"] v with
      | [target] => do
          match ← target.nullable Json.typeId? with
          | some target => some (.sugar .specialization target)
          | none => some .dependentSpecialization
      | _ => none
  | "Other" => v.toText?.map (fun name => .unmodelled (.other name))
  | name =>
      match v with
      | .null => (Category.ofTag? name).map .unmodelled
      | _ => none

def TypeEntry.toJson (e : TypeEntry) : Json :=
  members (("class", e.type.toJson) ::
    match e.spelling with
    | some s => [("spelling", text s)]
    | none => [])

def TypeEntry.ofJson? (v : Json) : Option TypeEntry := do
  match ← slots ["class", "spelling"] v with
  | [type, spelling] => do
      let type ← type.required TypeClass.ofJson?
      let spelling ← spelling.optional Json.toText?
      some ⟨type, spelling⟩
  | _ => none

def TemplateName.toJson : TemplateName → Json
  | .template name => tagged "Template" (members [("qualified_name", text name)])
  | .indirect kind => text kind.name

def TemplateName.ofJson? (v : Json) : Option TemplateName := do
  let (name, v) ← choice v
  if name = "Template" then
    match ← slots ["qualified_name"] v with
    | [qualifiedName] => (qualifiedName.required Json.toText?).map .template
    | _ => none
  else
    match v with
    | .null => (TemplateNameKind.ofTag? name).map .indirect
    | _ => none

def TemplateArgument.toJson : TemplateArgument → Json
  | .type ty isConst => tagged "Type" (members [("ty", ty.toJson), ("is_const", .bool isConst)])
  | .integral ty value => tagged "Integral" (members [("ty", ty.toJson), ("value", text value)])
  | .template name => tagged "Template" name.toJson
  | .unmodelled kind => text kind.name

def TemplateArgument.ofJson? (v : Json) : Option TemplateArgument := do
  let (name, v) ← choice v
  match name with
  | "Type" => do
      match ← slots ["ty", "is_const"] v with
      | [ty, isConst] => do
          let ty ← ty.required Json.typeId?
          let isConst ← isConst.required Json.toBool?
          some (.type ty isConst)
      | _ => none
  | "Integral" => do
      match ← slots ["ty", "value"] v with
      | [ty, value] => do
          let ty ← ty.required Json.typeId?
          let value ← value.required Json.toText?
          some (.integral ty value)
      | _ => none
  | "Template" => (TemplateName.ofJson? v).map .template
  | name =>
      match v with
      | .null => (ArgumentKind.ofTag? name).map .unmodelled
      | _ => none

def Field.toJson (f : Field) : Json :=
  members [("name", text f.name), ("ty", f.ty.toJson), ("bit_offset", Json.word f.bitOffset),
    ("bit_width", ofOption Json.word f.bitWidth)]

def Field.ofJson? (v : Json) : Option Field := do
  match ← slots ["name", "ty", "bit_offset", "bit_width"] v with
  | [name, ty, offset, width] => do
      let name ← name.required Json.toText?
      let ty ← ty.required Json.typeId?
      let offset ← offset.required Json.word64?
      let width ← width.nullable Json.word64?
      some ⟨name, ty, offset, width⟩
  | _ => none

def Base.toJson (b : Base) : Json :=
  members [("ty", b.ty.toJson), ("bit_offset", Json.word b.bitOffset)]

def Base.ofJson? (v : Json) : Option Base := do
  match ← slots ["ty", "bit_offset"] v with
  | [ty, offset] => do
      let ty ← ty.required Json.typeId?
      let offset ← offset.required Json.word64?
      some ⟨ty, offset⟩
  | _ => none

def Method.toJson (m : Method) : Json :=
  members [("name", text m.name), ("is_virtual", .bool m.isVirtual)]

def Method.ofJson? (v : Json) : Option Method := do
  match ← slots ["name", "is_virtual"] v with
  | [name, isVirtual] => do
      let name ← name.required Json.toText?
      let isVirtual ← isVirtual.required Json.toBool?
      some ⟨name, isVirtual⟩
  | _ => none

def RecordDef.toJson (d : RecordDef) : Json :=
  members [("size_bits", Json.word d.sizeBits), ("align_bits", Json.word d.alignBits),
    ("fields", .array (d.fields.map Field.toJson)), ("bases", .array (d.bases.map Base.toJson)),
    ("methods", .array (d.methods.map Method.toJson)),
    ("template_args",
      ofOption (fun args => .array (args.map TemplateArgument.toJson)) d.templateArgs)]

def RecordDef.ofJson? (v : Json) : Option RecordDef := do
  match ← slots ["size_bits", "align_bits", "fields", "bases", "methods", "template_args"] v with
  | [size, align, fields, bases, methods, args] => do
      let size ← size.required Json.word64?
      let align ← align.required Json.word64?
      let fields ← fields.orElse [] (listOf Field.ofJson?)
      let bases ← bases.orElse [] (listOf Base.ofJson?)
      let methods ← methods.orElse [] (listOf Method.ofJson?)
      let args ← args.optional (listOf TemplateArgument.ofJson?)
      some ⟨size, align, fields, bases, methods, args⟩
  | _ => none

def Enumerator.toJson (e : Enumerator) : Json :=
  members [("name", text e.name), ("value", Json.integer e.value.toInt)]

def Enumerator.ofJson? (v : Json) : Option Enumerator := do
  match ← slots ["name", "value"] v with
  | [name, value] => do
      let name ← name.required Json.toText?
      let value ← value.required Json.int64?
      some ⟨name, value⟩
  | _ => none

def EnumDef.toJson (d : EnumDef) : Json :=
  members [("size_bits", Json.word d.sizeBits),
    ("enumerators", .array (d.enumerators.map Enumerator.toJson))]

def EnumDef.ofJson? (v : Json) : Option EnumDef := do
  match ← slots ["size_bits", "enumerators"] v with
  | [size, enumerators] => do
      let size ← size.required Json.word64?
      let enumerators ← enumerators.orElse [] (listOf Enumerator.ofJson?)
      some ⟨size, enumerators⟩
  | _ => none

def RecordInfo.toJson (i : RecordInfo) : Json :=
  members [("kind", text i.kind.tag), ("name", text i.name),
    ("qualified_name", text i.qualifiedName), ("is_dynamic", .bool i.isDynamic)]

def RecordInfo.ofJson? (v : Json) : Option RecordInfo := do
  match ← slots ["kind", "name", "qualified_name", "is_dynamic"] v with
  | [kind, name, qualifiedName, isDynamic] => do
      let kind ← kind.required (plainChoice RecordKind.ofTag?)
      let name ← name.required Json.toText?
      let qualifiedName ← qualifiedName.required Json.toText?
      let isDynamic ← isDynamic.required Json.toBool?
      some ⟨kind, name, qualifiedName, isDynamic⟩
  | _ => none

def Declaration.toJson : Declaration → Json
  | .record info definition =>
      tagged "Record"
        (members [("info", info.toJson), ("def", ofOption RecordDef.toJson definition)])
  | .enum name definition =>
      tagged "Enum" (members [("name", text name), ("def", ofOption EnumDef.toJson definition)])

def Declaration.ofJson? (v : Json) : Option Declaration := do
  let (name, v) ← choice v
  match name with
  | "Record" => do
      match ← slots ["info", "def"] v with
      | [info, definition] => do
          let info ← info.required RecordInfo.ofJson?
          let definition ← definition.nullable RecordDef.ofJson?
          some (.record info definition)
      | _ => none
  | "Enum" => do
      match ← slots ["name", "def"] v with
      | [name, definition] => do
          let name ← name.required Json.toText?
          let definition ← definition.nullable EnumDef.ofJson?
          some (.enum name definition)
      | _ => none
  | _ => none

def NamedType.toJson (r : NamedType) : Json := members [("name", text r.name), ("ty", r.ty.toJson)]

def NamedType.ofJson? (v : Json) : Option NamedType := do
  match ← slots ["name", "ty"] v with
  | [name, ty] => do
      let name ← name.required Json.toText?
      let ty ← ty.required Json.typeId?
      some ⟨name, ty⟩
  | _ => none

namespace Table

def toJson (t : Table) : Json :=
  members [("types", .array (t.types.toList.map TypeEntry.toJson)),
    ("decls", .array (t.decls.toList.map Declaration.toJson)),
    ("roots", .array (t.roots.map NamedType.toJson))]

def ofJson? (v : Json) : Option Table := do
  match ← slots ["types", "decls", "roots"] v with
  | [types, decls, roots] => do
      let types ← types.required (listOf TypeEntry.ofJson?)
      let decls ← decls.required (listOf Declaration.ofJson?)
      let roots ← roots.orElse [] (listOf NamedType.ofJson?)
      some ⟨types.toArray, decls.toArray, roots⟩
  | _ => none

def print (t : Table) : String := t.toJson.render

def ofText? (s : String) : Option Table := do
  let v ← Json.parse s
  ofJson? v

inductive LoadError where
  | malformed
  | invalid (cause : TableError)
  deriving DecidableEq, Repr

def load (s : String) : Except LoadError Table :=
  match ofText? s with
  | none => .error .malformed
  | some t =>
      match t.validate with
      | .error cause => .error (.invalid cause)
      | .ok () => .ok t

end Table
end ObjectLayout
