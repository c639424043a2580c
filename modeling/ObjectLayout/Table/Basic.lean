import ObjectLayout.Handle
import ObjectLayout.Builtin

/-! A table of types as a compiler front end reports them: type entries that refer to each other
and to declarations by handle, the declarations of records and enums, and the types that are
exported under a name. -/
namespace ObjectLayout

inductive RecordKind where
  | structKind
  | classKind
  | unionKind
  deriving DecidableEq, Repr

inductive AliasForm where
  | typedefDecl
  | usingDecl
  deriving DecidableEq, Repr

/- A way to write a type that is not a type of its own: with a qualifier (`ns::Foo`, `struct Foo`),
as a template parameter after substitution, as a template specialization. -/
inductive SugarForm where
  | elaborated
  | substituted
  | specialization
  deriving DecidableEq, Repr

inductive Category where
  | rvalueReference
  | memberPointer
  | functionProto
  | incompleteArray
  | variableArray
  | dependentSizedArray
  | vector
  | atomic
  | decltype
  | templateTypeParm
  | other (name : String)
  deriving DecidableEq, Repr

inductive TypeClass where
  | builtin (kind : Builtin)
  | record (decl : DeclId)
  | enum (decl : DeclId)
  | pointer (pointee : TypeId)
  | reference (pointee : TypeId)
  | array (element : TypeId) (length : UInt64)
  | synonym (form : AliasForm) (name : String) (target : TypeId)
  | sugar (form : SugarForm) (target : TypeId)
  | dependentSpecialization
  | unmodelled (category : Category)
  deriving DecidableEq, Repr

/- A type of the table. A spelling, where there is one, is shown instead of the derived name. -/
structure TypeEntry where
  type : TypeClass
  spelling : Option String
  deriving DecidableEq, Repr

inductive TemplateNameKind where
  | overloadedTemplate
  | assumedTemplate
  | qualifiedTemplate
  | dependentTemplate
  | substTemplateTemplateParm
  | substTemplateTemplateParmPack
  | usingTemplate
  deriving DecidableEq, Repr

inductive TemplateName where
  | template (qualifiedName : String)
  | indirect (kind : TemplateNameKind)
  deriving DecidableEq, Repr

inductive ArgumentKind where
  | declaration
  | nullPtr
  | templateExpansion
  | expression
  | pack
  deriving DecidableEq, Repr

inductive TemplateArgument where
  | type (ty : TypeId) (isConst : Bool)
  | integral (ty : TypeId) (value : String)
  | template (name : TemplateName)
  | unmodelled (kind : ArgumentKind)
  deriving DecidableEq, Repr

/- What is known of a record from its declaration. The qualified name includes the template
arguments; a dynamic record has a table of virtual functions. -/
structure RecordInfo where
  kind : RecordKind
  name : String
  qualifiedName : String
  isDynamic : Bool
  deriving DecidableEq, Repr

structure Field where
  name : String
  ty : TypeId
  bitOffset : UInt64
  bitWidth : Option UInt64
  deriving DecidableEq, Repr

structure Base where
  ty : TypeId
  bitOffset : UInt64
  deriving DecidableEq, Repr

structure Method where
  name : String
  isVirtual : Bool
  deriving DecidableEq, Repr

structure Enumerator where
  name : String
  value : Int64
  deriving DecidableEq

structure RecordDef where
  sizeBits : UInt64
  alignBits : UInt64
  fields : List Field
  bases : List Base
  methods : List Method
  templateArgs : Option (List TemplateArgument)
  deriving DecidableEq, Repr

structure EnumDef where
  sizeBits : UInt64
  enumerators : List Enumerator
  deriving DecidableEq

inductive Declaration where
  | record (info : RecordInfo) (definition : Option RecordDef)
  | enum (name : String) (definition : Option EnumDef)
  deriving DecidableEq

structure NamedType where
  name : String
  ty : TypeId
  deriving DecidableEq, Repr

structure Table where
  types : Array TypeEntry
  decls : Array Declaration
  roots : List NamedType
  deriving DecidableEq

namespace Table

def empty : Table := ⟨#[], #[], []⟩

def entry? (t : Table) (ty : TypeId) : Option TypeEntry := t.types[ty.raw]?

def decl? (t : Table) (decl : DeclId) : Option Declaration := t.decls[decl.raw]?

def lookup (t : Table) (name : String) : Option TypeId :=
  (t.roots.find? (fun root => root.name = name)).map NamedType.ty

end Table

def Category.name : Category → String
  | .rvalueReference => "RValueReference"
  | .memberPointer => "MemberPointer"
  | .functionProto => "FunctionProto"
  | .incompleteArray => "IncompleteArray"
  | .variableArray => "VariableArray"
  | .dependentSizedArray => "DependentSizedArray"
  | .vector => "Vector"
  | .atomic => "Atomic"
  | .decltype => "Decltype"
  | .templateTypeParm => "TemplateTypeParm"
  | .other name => name

def AliasForm.name : AliasForm → String
  | .typedefDecl => "Typedef"
  | .usingDecl => "Using"

def SugarForm.name : SugarForm → String
  | .elaborated => "Elaborated"
  | .substituted => "SubstTemplateTypeParm"
  | .specialization => "TemplateSpecialization"

def TypeClass.name : TypeClass → String
  | .builtin _ => "Builtin"
  | .record _ => "Record"
  | .enum _ => "Enum"
  | .pointer _ => "Pointer"
  | .reference _ => "LValueReference"
  | .array _ _ => "ConstantArray"
  | .synonym form _ _ => form.name
  | .sugar form _ => form.name
  | .dependentSpecialization => SugarForm.specialization.name
  | .unmodelled category => category.name

def TypeClass.sugarTarget : TypeClass → Option TypeId
  | .sugar _ target => some target
  | _ => none

def TypeClass.wrapped : TypeClass → Option TypeId
  | .pointer target | .reference target | .array target _ | .synonym _ _ target | .sugar _ target =>
      some target
  | .builtin _ | .record _ | .enum _ | .dependentSpecialization | .unmodelled _ => none

def TemplateNameKind.name : TemplateNameKind → String
  | .overloadedTemplate => "OverloadedTemplate"
  | .assumedTemplate => "AssumedTemplate"
  | .qualifiedTemplate => "QualifiedTemplate"
  | .dependentTemplate => "DependentTemplate"
  | .substTemplateTemplateParm => "SubstTemplateTemplateParm"
  | .substTemplateTemplateParmPack => "SubstTemplateTemplateParmPack"
  | .usingTemplate => "UsingTemplate"

def TemplateName.kindName : TemplateName → String
  | .template _ => "Template"
  | .indirect kind => kind.name

def ArgumentKind.name : ArgumentKind → String
  | .declaration => "Declaration"
  | .nullPtr => "NullPtr"
  | .templateExpansion => "TemplateExpansion"
  | .expression => "Expression"
  | .pack => "Pack"

def TemplateArgument.kindName : TemplateArgument → String
  | .type _ _ => "Type"
  | .integral _ _ => "Integral"
  | .template _ => "Template"
  | .unmodelled kind => kind.name

def TemplateArgument.type? : TemplateArgument → Option TypeId
  | .type ty _ | .integral ty _ => some ty
  | .template _ | .unmodelled _ => none

def RecordDef.mentions (d : RecordDef) : List TypeId :=
  d.fields.map Field.ty ++ d.bases.map Base.ty ++
    (d.templateArgs.getD []).filterMap TemplateArgument.type?

theorem RecordDef.mentionsField {x : RecordDef} {f : Field} (member : f ∈ x.fields) :
    f.ty ∈ x.mentions :=
  List.mem_append_left _ (List.mem_append_left _ (List.mem_map_of_mem member))

theorem RecordDef.mentionsBase {x : RecordDef} {b : Base} (member : b ∈ x.bases) :
    b.ty ∈ x.mentions :=
  List.mem_append_left _ (List.mem_append_right _ (List.mem_map_of_mem member))

theorem RecordDef.mentionsArgument {x : RecordDef} {a : TemplateArgument} {ty : TypeId}
    (member : a ∈ x.templateArgs.getD []) (same : a.type? = some ty) : ty ∈ x.mentions :=
  List.mem_append_right _ (List.mem_filterMap.mpr ⟨a, member, same⟩)

end ObjectLayout
