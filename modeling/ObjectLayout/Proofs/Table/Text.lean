import ObjectLayout.Table.Json
import ObjectLayout.Proofs.Json.Fields
import ObjectLayout.Proofs.Table.Handles

/-! A table that is written as text is read back as it was, whether it is in order or not. Every kind of
data that a table is made of survives by itself; what is optional is told apart from what is empty by
null, or by having no member. -/
namespace ObjectLayout

namespace Json

theorem survivesWord (n : UInt64) : (word n).Survives word64? n := by
  have below := survivesBelow n.toNat_lt_size
  exact ⟨below.legible, by simp [word, word64?, below.read]⟩

theorem survivesType {ty : TypeId} (inside : ty.raw < handleBound) :
    ty.toJson.Survives typeId? ty := by
  have below := survivesBelow inside
  exact ⟨below.legible, by simp [TypeId.toJson, typeId?, below.read]⟩

theorem survivesDecl {d : DeclId} (inside : d.raw < handleBound) : d.toJson.Survives declId? d := by
  have below := survivesBelow inside
  exact ⟨below.legible, by simp [DeclId.toJson, declId?, below.read]⟩

end Json

open Json

theorem TypeClass.wrapperSurvives (member : String) (make : TypeId → TypeClass) {target : TypeId}
    (inside : target.raw < handleBound) :
    (members [(member, target.toJson)]).Survives (wrapper? member make) (make target) := by
  have survives := survivesType inside
  refine ⟨legibleMembers (by simp [survives.legible]), ?_⟩
  rw [wrapper?, slotsFound (by simp)]
  simp [survives.read]

theorem TypeClass.synonymSurvives (form : AliasForm) (name : String) {target : TypeId}
    (inside : target.raw < handleBound) :
    (members [("name", text name), ("underlying", target.toJson)]).Survives (synonym? form)
      (.synonym form name target) := by
  have label := survivesText name
  have survives := survivesType inside
  refine ⟨legibleMembers (by simp [label.legible, survives.legible]), ?_⟩
  simp [synonym?, bothFound, label.read, survives.read]

theorem TypeClass.arraySurvives {element : TypeId} (inside : element.raw < handleBound)
    (length : UInt64) : (array element length).toJson.Survives ofJson? (.array element length) := by
  have first := survivesType inside
  have second := survivesWord length
  refine ⟨legibleTagged (legibleMembers (by simp [first.legible, second.legible])), ?_⟩
  simp [ofJson?, toJson, choiceTagged, bothFound, first.read, second.read]

theorem TypeClass.survives {c : TypeClass} (target : ∀ ty, c.wrapped = some ty → ty.raw < handleBound)
    (decl : ∀ d, c.declared = some d → d.raw < handleBound) : c.toJson.Survives ofJson? c := by
  -- the name of the class leads the reader to the part that reads what is written beside it
  cases c with
  | builtin kind =>
    have survives := survivesPlain (Builtin.ofTagTag kind)
    exact ⟨legibleTagged survives.legible, congrArg (Option.map TypeClass.builtin) survives.read⟩
  | record d =>
    have survives := survivesDecl (decl d rfl)
    exact ⟨legibleTagged survives.legible, congrArg (Option.map TypeClass.record) survives.read⟩
  | enum d =>
    have survives := survivesDecl (decl d rfl)
    exact ⟨legibleTagged survives.legible, congrArg (Option.map TypeClass.enum) survives.read⟩
  | pointer pointee =>
    have survives := wrapperSurvives "pointee" .pointer (target pointee rfl)
    exact ⟨legibleTagged survives.legible, survives.read⟩
  | reference pointee =>
    have survives := wrapperSurvives "pointee" .reference (target pointee rfl)
    exact ⟨legibleTagged survives.legible, survives.read⟩
  | array element length => exact arraySurvives (target element rfl) length
  | synonym form name inner =>
    have survives := synonymSurvives form name (target inner rfl)
    refine ⟨legibleTagged survives.legible, ?_⟩
    cases form <;> exact survives.read
  | sugar form inner =>
    have inside := target inner rfl
    cases form with
    | elaborated =>
      have survives := wrapperSurvives "named" (.sugar .elaborated) inside
      exact ⟨legibleTagged survives.legible, survives.read⟩
    | substituted =>
      have survives := wrapperSurvives "replacement" (.sugar .substituted) inside
      exact ⟨legibleTagged survives.legible, survives.read⟩
    | specialization =>
      have survives := survivesType inside
      refine ⟨legibleTagged (legibleMembers (by simp [survives.legible])), ?_⟩
      simp [ofJson?, toJson, choiceTagged, slotsFound, givenRead survives nofun]
  | dependentSpecialization =>
    exact ⟨legibleTagged (legibleMembers (by simp [legibleNull])), rfl⟩
  | unmodelled category =>
    cases category with
    | other name =>
      have survives := survivesText name
      exact ⟨legibleTagged survives.legible,
        congrArg (Option.map (fun name => TypeClass.unmodelled (.other name))) survives.read⟩
    | _ => exact ⟨(survivesText _).legible, rfl⟩

theorem TypeEntry.survives {e : TypeEntry}
    (target : ∀ ty, e.type.wrapped = some ty → ty.raw < handleBound)
    (decl : ∀ d, e.type.declared = some d → d.raw < handleBound) :
    e.toJson.Survives ofJson? e := by
  obtain ⟨type, spelling⟩ := e
  have first := TypeClass.survives target decl
  cases spelling with
  | none =>
    refine ⟨legibleMembers (by simp [first.legible]), ?_⟩
    rw [ofJson?, toJson, slotsFound (by simp)]
    simp [first.read]
  | some s =>
    have second := survivesText s
    refine ⟨legibleMembers (by simp [first.legible, second.legible]), ?_⟩
    rw [ofJson?, toJson, slotsFound (by simp)]
    simp [givenRead second nofun, first.read]

theorem TemplateName.survives (name : TemplateName) : name.toJson.Survives ofJson? name := by
  cases name with
  | template qualifiedName =>
    have label := survivesText qualifiedName
    refine ⟨legibleTagged (legibleMembers (by simp [label.legible])), ?_⟩
    simp [ofJson?, toJson, choiceTagged, slotsFound, label.read]
  | indirect kind => cases kind <;> exact ⟨(survivesText _).legible, rfl⟩

theorem TemplateArgument.survives {a : TemplateArgument}
    (inside : ∀ ty, a.type? = some ty → ty.raw < handleBound) : a.toJson.Survives ofJson? a := by
  cases a with
  | type ty isConst =>
    have first := survivesType (inside ty rfl)
    have second := survivesBool isConst
    refine ⟨legibleTagged (legibleMembers (by simp [first.legible, second.legible])), ?_⟩
    simp [ofJson?, toJson, choiceTagged, bothFound, first.read, second.read]
  | integral ty value =>
    have first := survivesType (inside ty rfl)
    have second := survivesText value
    refine ⟨legibleTagged (legibleMembers (by simp [first.legible, second.legible])), ?_⟩
    simp [ofJson?, toJson, choiceTagged, bothFound, first.read, second.read]
  | template name =>
    have survives := name.survives
    exact ⟨legibleTagged survives.legible,
      congrArg (Option.map TemplateArgument.template) survives.read⟩
  | unmodelled kind => cases kind <;> exact ⟨(survivesText _).legible, rfl⟩

theorem Field.survives {f : Field} (inside : f.ty.raw < handleBound) :
    f.toJson.Survives Field.ofJson? f := by
  have name := survivesText f.name
  have ty := survivesType inside
  have offset := survivesWord f.bitOffset
  have width := survivesOption word (x := f.bitWidth) (fun n _ => ⟨survivesWord n, nofun⟩)
  refine ⟨legibleMembers (by simp [name.legible, ty.legible, offset.legible, width.legible]), ?_⟩
  rw [ofJson?, toJson, slotsFound (by simp)]
  simp [name.read, ty.read, offset.read, width.read]

theorem Base.survives {b : Base} (inside : b.ty.raw < handleBound) :
    b.toJson.Survives Base.ofJson? b := by
  have ty := survivesType inside
  have offset := survivesWord b.bitOffset
  refine ⟨legibleMembers (by simp [ty.legible, offset.legible]), ?_⟩
  rw [ofJson?, toJson, slotsFound (by simp)]
  simp [ty.read, offset.read]

theorem Method.survives (m : Method) : m.toJson.Survives Method.ofJson? m := by
  have name := survivesText m.name
  have isVirtual := survivesBool m.isVirtual
  refine ⟨legibleMembers (by simp [name.legible, isVirtual.legible]), ?_⟩
  rw [ofJson?, toJson, slotsFound (by simp)]
  simp [name.read, isVirtual.read]

theorem Enumerator.survives (e : Enumerator) : e.toJson.Survives Enumerator.ofJson? e := by
  have name := survivesText e.name
  have value := survivesInteger e.value
  refine ⟨legibleMembers (by simp [name.legible, value.legible]), ?_⟩
  rw [ofJson?, toJson, slotsFound (by simp)]
  simp [name.read, value.read]

theorem RecordDef.survives {x : RecordDef} (inside : ∀ ty ∈ x.mentions, ty.raw < handleBound) :
    x.toJson.Survives RecordDef.ofJson? x := by
  have size := survivesWord x.sizeBits
  have align := survivesWord x.alignBits
  have fields := survivesList Field.toJson (fun f member =>
    Field.survives (inside f.ty (mentionsField member)))
  have bases := survivesList Base.toJson (fun b member =>
    Base.survives (inside b.ty (mentionsBase member)))
  have methods := survivesList Method.toJson (fun m (_ : m ∈ x.methods) => m.survives)
  have argument : ∀ args, x.templateArgs = some args → ∀ a ∈ args,
      a.toJson.Survives TemplateArgument.ofJson? a := by
    intro args same a member
    have held : a ∈ x.templateArgs.getD [] := by simpa [same] using member
    exact TemplateArgument.survives (fun ty named => inside ty (mentionsArgument held named))
  have args := survivesOption (fun args => .array (args.map TemplateArgument.toJson))
    (fun args same => ⟨survivesList TemplateArgument.toJson (argument args same), nofun⟩)
  refine ⟨legibleMembers (by simp [size.legible, align.legible, fields.legible, bases.legible,
    methods.legible, args.legible]), ?_⟩
  rw [ofJson?, toJson, slotsFound (by simp)]
  simp [size.read, align.read, fields.read, bases.read, methods.read, args.read]

theorem EnumDef.survives (x : EnumDef) : x.toJson.Survives EnumDef.ofJson? x := by
  have size := survivesWord x.sizeBits
  have enumerators := survivesList Enumerator.toJson
    (fun e (_ : e ∈ x.enumerators) => e.survives)
  refine ⟨legibleMembers (by simp [size.legible, enumerators.legible]), ?_⟩
  rw [ofJson?, toJson, slotsFound (by simp)]
  simp [size.read, enumerators.read]

theorem RecordKind.ofTagTag (kind : RecordKind) : ofTag? kind.tag = some kind := by
  cases kind <;> rfl

theorem RecordInfo.survives (i : RecordInfo) : i.toJson.Survives RecordInfo.ofJson? i := by
  have kind := survivesPlain i.kind.ofTagTag
  have name := survivesText i.name
  have qualifiedName := survivesText i.qualifiedName
  have isDynamic := survivesBool i.isDynamic
  refine ⟨legibleMembers (by simp [kind.legible, name.legible, qualifiedName.legible,
    isDynamic.legible]), ?_⟩
  rw [ofJson?, toJson, slotsFound (by simp)]
  simp [kind.read, name.read, qualifiedName.read, isDynamic.read]

def Declaration.mentions : Declaration → List TypeId
  | .record _ (some x) => x.mentions
  | .record _ none | .enum _ _ => []

theorem Declaration.survives {d : Declaration} (inside : ∀ ty ∈ d.mentions, ty.raw < handleBound) :
    d.toJson.Survives Declaration.ofJson? d := by
  cases d with
  | record info definition =>
    have first := info.survives
    have second := survivesOption RecordDef.toJson (x := definition) (fun x same =>
      ⟨RecordDef.survives (by simpa [same, mentions] using inside), nofun⟩)
    refine ⟨legibleTagged (legibleMembers (by simp [first.legible, second.legible])), ?_⟩
    simp [ofJson?, toJson, choiceTagged, bothFound, first.read, second.read]
  | enum name definition =>
    have first := survivesText name
    have second := survivesOption EnumDef.toJson (x := definition)
      (fun x _ => ⟨x.survives, nofun⟩)
    refine ⟨legibleTagged (legibleMembers (by simp [first.legible, second.legible])), ?_⟩
    simp [ofJson?, toJson, choiceTagged, bothFound, first.read, second.read]

theorem NamedType.survives {r : NamedType} (inside : r.ty.raw < handleBound) :
    r.toJson.Survives NamedType.ofJson? r := by
  have name := survivesText r.name
  have ty := survivesType inside
  refine ⟨legibleMembers (by simp [name.legible, ty.legible]), ?_⟩
  rw [ofJson?, toJson, slotsFound (by simp)]
  simp [name.read, ty.read]

namespace Table

/- The handles of a table are numbers of thirty-two bits. Whether they name anything is another
question: a table that is out of order is written and read as well. -/
structure Fits (t : Table) : Prop where
  wrapped : ∀ e ∈ t.types, ∀ ty, e.type.wrapped = some ty → ty.raw < handleBound
  declared : ∀ e ∈ t.types, ∀ d, e.type.declared = some d → d.raw < handleBound
  mentions : ∀ d ∈ t.decls, ∀ ty ∈ d.mentions, ty.raw < handleBound
  roots : ∀ r ∈ t.roots, r.ty.raw < handleBound

theorem survives {t : Table} (fits : t.Fits) : t.toJson.Survives ofJson? t := by
  have types := survivesList TypeEntry.toJson (fun e (member : e ∈ t.types.toList) =>
    TypeEntry.survives (fits.wrapped e (Array.mem_toList_iff.mp member))
      (fits.declared e (Array.mem_toList_iff.mp member)))
  have decls := survivesList Declaration.toJson (fun d (member : d ∈ t.decls.toList) =>
    Declaration.survives (fits.mentions d (Array.mem_toList_iff.mp member)))
  have roots := survivesList NamedType.toJson (fun r member =>
    NamedType.survives (fits.roots r member))
  refine ⟨legibleMembers (by simp [types.legible, decls.legible, roots.legible]), ?_⟩
  rw [ofJson?, toJson, slotsFound (by simp)]
  simp [types.read, decls.read, roots.read]

theorem textKeepsTable {t : Table} (fits : t.Fits) :
    ofText? t.print = some t ∧
    load t.print =
      (match t.validate with
        | .ok () => .ok t
        | .error cause => .error (.invalid cause)) := by
  have survives := survives fits
  have read : ofText? t.print = some t := by
    simp only [ofText?, print, parsePrinted survives.legible, bind, Option.bind, survives.read]
  refine ⟨read, ?_⟩
  simp only [load, read]
  cases t.validate <;> rfl

/- A table that is out of order, with what is easily lost: an empty spelling and none, an empty
definition and none, no template arguments and an empty list of them, characters that need an escape,
and the ends of the ranges of numbers. -/
def oddTable : Table where
  types := #[⟨.builtin .int, some ""⟩, ⟨.record ⟨0⟩, some "a\\b\x22\x01\t/"⟩, ⟨.record ⟨1⟩, none⟩,
    ⟨.array ⟨0⟩ 18446744073709551615, none⟩, ⟨.dependentSpecialization, none⟩,
    ⟨.sugar .specialization ⟨4⟩, none⟩, ⟨.unmodelled .vector, none⟩,
    ⟨.unmodelled (.other "Vector"), none⟩, ⟨.pointer ⟨4294967295⟩, none⟩]
  decls := #[
    .record ⟨.unionKind, "A", "é𝄞", true⟩ none,
    .record ⟨.structKind, "B", "", false⟩
      (some ⟨0, 18446744073709551615, [⟨"b", ⟨0⟩, 0, none⟩, ⟨"c", ⟨3⟩, 1, some 0⟩], [], [], none⟩),
    .record ⟨.structKind, "C", "C", false⟩ (some ⟨8, 8, [], [⟨⟨1⟩, 0⟩], [], some []⟩),
    .enum "D" none, .enum "E" (some ⟨32, []⟩),
    .enum "F" (some ⟨64, [⟨"low", -9223372036854775808⟩]⟩)]
  roots := [⟨"", ⟨0⟩⟩, ⟨"", ⟨12⟩⟩]

theorem oddFits : oddTable.Fits := by
  constructor <;> simp [oddTable, TypeClass.wrapped, TypeClass.declared, Declaration.mentions,
    RecordDef.mentions, handleBound, UInt32.size]

theorem textKeepsOddTable :
    oddTable.Fits ∧ ofText? oddTable.print = some oddTable ∧
    load oddTable.print = .error (.invalid (.forwardReference ⟨8⟩ ⟨4294967295⟩)) :=
  ⟨oddFits, (textKeepsTable oddFits).1, (textKeepsTable oddFits).2⟩

end Table
end ObjectLayout
