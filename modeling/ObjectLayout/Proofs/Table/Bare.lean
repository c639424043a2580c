import ObjectLayout.Proofs.Expansion.Description

/-! A table without its sugar: wherever it mentions a type, it mentions what is left of the type when
all sugar is taken off. Unless sugar is spelled out in its own way, every question about a type that
is no sugar has the same answer in it. -/
namespace ObjectLayout

def TypeClass.redirect (swap : TypeId → TypeId) : TypeClass → TypeClass
  | .pointer pointee => .pointer (swap pointee)
  | .reference pointee => .reference (swap pointee)
  | .array element length => .array (swap element) length
  | .synonym form name target => .synonym form name (swap target)
  | .sugar form target => .sugar form (swap target)
  | .builtin kind => .builtin kind
  | .record decl => .record decl
  | .enum decl => .enum decl
  | .dependentSpecialization => .dependentSpecialization
  | .unmodelled category => .unmodelled category

def TypeEntry.redirect (swap : TypeId → TypeId) (e : TypeEntry) : TypeEntry :=
  { e with type := e.type.redirect swap }

def TemplateArgument.redirect (swap : TypeId → TypeId) : TemplateArgument → TemplateArgument
  | .type ty isConst => .type (swap ty) isConst
  | .integral ty value => .integral (swap ty) value
  | .template name => .template name
  | .unmodelled kind => .unmodelled kind

def Field.redirect (swap : TypeId → TypeId) (f : Field) : Field := { f with ty := swap f.ty }

def Base.redirect (swap : TypeId → TypeId) (b : Base) : Base := { b with ty := swap b.ty }

def RecordDef.redirect (swap : TypeId → TypeId) (x : RecordDef) : RecordDef :=
  { x with
    fields := x.fields.map (Field.redirect swap)
    bases := x.bases.map (Base.redirect swap)
    templateArgs := x.templateArgs.map (List.map (TemplateArgument.redirect swap)) }

def Declaration.redirect (swap : TypeId → TypeId) : Declaration → Declaration
  | .record info definition => .record info (definition.map (RecordDef.redirect swap))
  | .enum name definition => .enum name definition

def NamedType.redirect (swap : TypeId → TypeId) (root : NamedType) : NamedType :=
  { root with ty := swap root.ty }

namespace Table

def redirect (t : Table) (swap : TypeId → TypeId) : Table where
  types := t.types.map (TypeEntry.redirect swap)
  decls := t.decls.map (Declaration.redirect swap)
  roots := t.roots.map (NamedType.redirect swap)

def bareWithin (t : Table) : Nat → TypeId → TypeId
  | 0, ty => ty
  | fuel + 1, ty =>
      match (t.entry? ty).bind (fun e => e.type.sugarTarget) with
      | some inner => t.bareWithin fuel inner
      | none => ty

/- What is left of a type when all sugar is taken off. Sugar of an earlier type is a later one, so
there is no more of it than there are types. -/
def bare (t : Table) (ty : TypeId) : TypeId := t.bareWithin t.types.size ty

def bared (t : Table) : Table := t.redirect t.bare

def Unspelled (t : Table) : Prop :=
  ∀ e ∈ t.types, e.type.sugarTarget ≠ none → e.spelling = none

instance (t : Table) : Decidable t.Unspelled := by
  unfold Unspelled
  infer_instance

variable {t : Table}

theorem entryRedirect (t : Table) (swap : TypeId → TypeId) (ty : TypeId) :
    entry? (t.redirect swap) ty = (t.entry? ty).map (TypeEntry.redirect swap) := by
  unfold entry?
  simp only [redirect, Array.getElem?_map]

theorem declRedirect (t : Table) (swap : TypeId → TypeId) (d : DeclId) :
    (t.redirect swap).decl? d = (t.decl? d).map (Declaration.redirect swap) := by
  simp [decl?, redirect]

theorem entryBared {ty : TypeId} {e : TypeEntry} (found : t.entry? ty = some e) :
    t.bared.entry? ty = some (e.redirect t.bare) := by
  rw [bared, entryRedirect, found]
  rfl

theorem declBared {d : DeclId} {x : Declaration} (found : t.decl? d = some x) :
    t.bared.decl? d = some (x.redirect t.bare) := by
  rw [bared, declRedirect, found]
  rfl

theorem lookupRedirect (t : Table) (swap : TypeId → TypeId) (name : String) :
    (t.redirect swap).lookup name = (t.lookup name).map swap := by
  simp only [lookup, redirect, List.find?_map, Option.map_map]
  rfl

theorem bareWithinPlain {ty : TypeId} {e : TypeEntry} (found : t.entry? ty = some e)
    (plain : e.type.sugarTarget = none) (fuel : Nat) : t.bareWithin fuel ty = ty := by
  cases fuel with
  | zero => rfl
  | succ fuel => simp [bareWithin, found, plain]

theorem bareWithinDesugars (sound : t.Sound) {fuel : Nat} {ty : TypeId}
    (inside : ty.raw < t.types.size) (enough : ty.raw ≤ fuel) :
    t.Desugars ty (t.bareWithin fuel ty) := by
  induction fuel generalizing ty with
  | zero =>
    obtain ⟨e, found⟩ := entryOfRange inside
    refine .plain found ?_
    cases step : e.type.sugarTarget with
    | none => rfl
    | some inner => exact absurd (sound.wraps found (sugarWraps step)) (by omega)
  | succ fuel ih =>
    obtain ⟨e, found⟩ := entryOfRange inside
    cases step : e.type.sugarTarget with
    | none =>
      rw [bareWithinPlain found step]
      exact .plain found step
    | some inner =>
      have falls := sound.wraps found (sugarWraps step)
      have rest := ih (Nat.lt_trans falls inside) (by omega)
      simp only [bareWithin, found, Option.bind_some, step]
      exact .sugar found step rest

theorem bareDesugars (sound : t.Sound) {ty : TypeId} (inside : ty.raw < t.types.size) :
    t.Desugars ty (t.bare ty) :=
  bareWithinDesugars sound inside (Nat.le_of_lt inside)

theorem barePlain {ty : TypeId} {e : TypeEntry} (found : t.entry? ty = some e)
    (plain : e.type.sugarTarget = none) : t.bare ty = ty :=
  bareWithinPlain found plain _

theorem bareSugar (sound : t.Sound) {ty inner : TypeId} {e : TypeEntry} (found : t.entry? ty = some e)
    (step : e.type.sugarTarget = some inner) : t.bare ty = t.bare inner := by
  have inside := entryInRange found
  have falls := sound.wraps found (sugarWraps step)
  exact desugarsUnique (desugarsSugar found step (bareDesugars sound inside))
    (bareDesugars sound (Nat.lt_trans falls inside))

theorem bareBelow (sound : t.Sound) {ty last : TypeId} (path : t.Desugars ty last) :
    last.raw ≤ ty.raw := by
  induction path with
  | plain found done => exact Nat.le_refl _
  | sugar found step rest ih =>
    exact Nat.le_trans ih (Nat.le_of_lt (sound.wraps found (sugarWraps step)))

theorem bareInside (sound : t.Sound) {ty : TypeId} (inside : ty.raw < t.types.size) :
    (t.bare ty).raw < t.types.size :=
  Nat.lt_of_le_of_lt (bareBelow sound (bareDesugars sound inside)) inside

theorem sizeRedirect (t : Table) (swap : TypeId → TypeId) :
    (t.redirect swap).types.size = t.types.size := by
  simp [redirect]

theorem wrappedRedirect (c : TypeClass) (swap : TypeId → TypeId) :
    (c.redirect swap).wrapped = c.wrapped.map swap := by
  cases c <;> rfl

theorem sugarRedirect (c : TypeClass) (swap : TypeId → TypeId) :
    (c.redirect swap).sugarTarget = c.sugarTarget.map swap := by
  cases c <;> rfl

theorem argumentsRedirect (x : RecordDef) (swap : TypeId → TypeId) :
    (x.redirect swap).templateArgs.getD [] =
      (x.templateArgs.getD []).map (TemplateArgument.redirect swap) := by
  cases given : x.templateArgs <;> simp [RecordDef.redirect, given]

theorem mentionsRedirect (x : RecordDef) (swap : TypeId → TypeId) :
    (x.redirect swap).mentions = x.mentions.map swap := by
  have argument : ∀ a : TemplateArgument, (a.redirect swap).type? = a.type?.map swap := by
    intro a
    cases a <;> rfl
  rw [RecordDef.mentions, argumentsRedirect]
  simp only [RecordDef.redirect, RecordDef.mentions, List.map_append, List.map_map,
    List.filterMap_map, List.map_filterMap, Function.comp_def, argument]
  rfl

theorem baredSound (sound : t.Sound) : t.bared.Sound := by
  have entered : ∀ {ty e}, t.bared.entry? ty = some e →
      ∃ own, t.entry? ty = some own ∧ own.redirect t.bare = e := by
    intro ty e found
    rw [bared, entryRedirect] at found
    exact Option.map_eq_some_iff.mp found
  refine ⟨?_, ?_, ?_, ?_⟩
  · intro ty e target found wraps
    obtain ⟨own, at_ty, rfl⟩ := entered found
    obtain ⟨inner, wrapped, rfl⟩ := Option.map_eq_some_iff.mp ((wrappedRedirect _ _).symm.trans wraps)
    have falls := sound.wraps at_ty wrapped
    have path := bareDesugars sound (Nat.lt_trans falls (entryInRange at_ty))
    exact Nat.lt_of_le_of_lt (bareBelow sound path) falls
  · intro ty e d found same
    obtain ⟨own, at_ty, rfl⟩ := entered found
    have kind : own.type = .record d := by
      cases h : own.type <;> simp_all [TypeEntry.redirect, TypeClass.redirect]
    obtain ⟨info, definition, at_d, mentions⟩ := sound.record at_ty kind
    refine ⟨info, definition.map (RecordDef.redirect t.bare), declBared at_d, ?_⟩
    intro x defined m member
    obtain ⟨y, at_y, rfl⟩ := Option.map_eq_some_iff.mp defined
    rw [mentionsRedirect] at member
    obtain ⟨part, mentioned, rfl⟩ := List.mem_map.mp member
    rw [bared, sizeRedirect]
    exact bareInside sound (mentions y at_y part mentioned)
  · intro ty e d found same
    obtain ⟨own, at_ty, rfl⟩ := entered found
    have kind : own.type = .enum d := by
      cases h : own.type <;> simp_all [TypeEntry.redirect, TypeClass.redirect]
    obtain ⟨name, definition, at_d⟩ := sound.enum at_ty kind
    exact ⟨name, definition, declBared at_d⟩
  · intro root member
    obtain ⟨own, held, rfl⟩ := List.mem_map.mp member
    rw [bared, sizeRedirect]
    exact bareInside sound (sound.roots own held)

section
variable (swap : TypeId → TypeId) (d : DeclId)

theorem declAnswer :
    (t.redirect swap).decl d = (t.decl d).map (Declaration.redirect swap) := by
  rw [decl, decl, declRedirect]
  cases t.decl? d <;> rfl

theorem isDefinedRedirect : (t.redirect swap).isDefined d = t.isDefined d := by
  rw [isDefined, isDefined, declAnswer]
  cases t.decl d with
  | error f => rfl
  | ok x =>
    cases x with
    | record info definition => cases definition <;> rfl
    | enum name definition => rfl

theorem enumNameRedirect : (t.redirect swap).enumName d = t.enumName d := by
  rw [enumName, enumName, declAnswer]
  cases t.decl d with
  | error f => rfl
  | ok x => cases x <;> rfl

theorem enumDefRedirect : (t.redirect swap).enumDef d = t.enumDef d := by
  rw [enumDef, enumDef, declAnswer]
  cases t.decl d with
  | error f => rfl
  | ok x => cases x <;> rfl

theorem ofRecordDefRedirect {α : Type} (missing : α) (part : RecordDef → α) :
    (t.redirect swap).ofRecordDef d missing part =
      t.ofRecordDef d missing (fun x => part (x.redirect swap)) := by
  rw [ofRecordDef, ofRecordDef, recordDef, recordDef, declAnswer]
  cases t.decl d with
  | error f => rfl
  | ok x =>
    cases x with
    | record info definition => cases definition <;> rfl
    | enum name definition => rfl

theorem baseNameRedirect (e : TypeEntry) :
    (t.redirect swap).baseName (e.redirect swap) = t.baseName e := by
  obtain ⟨type, spelling⟩ := e
  cases spelling with
  | some s => rfl
  | none =>
    cases type with
    | record d =>
      simp only [baseName, TypeEntry.redirect, TypeClass.redirect, declAnswer]
      cases t.decl d with
      | error f => rfl
      | ok x => cases x <;> rfl
    | enum d => exact enumNameRedirect swap d
    | builtin | pointer | reference | array | synonym | sugar | dependentSpecialization
    | unmodelled => rfl

theorem baseSizeRedirect (e : TypeEntry) :
    (t.redirect swap).baseSize (e.redirect swap) = t.baseSize e := by
  obtain ⟨type, spelling⟩ := e
  cases type with
  | record d => exact ofRecordDefRedirect swap d 0 RecordDef.sizeBits
  | enum d =>
    simp only [baseSize, TypeEntry.redirect, TypeClass.redirect, enumDefRedirect]
  | builtin | pointer | reference | array | synonym | sugar | dependentSpecialization
  | unmodelled => rfl

theorem baseAlignRedirect (e : TypeEntry) :
    (t.redirect swap).baseAlign (e.redirect swap) = t.baseAlign e := by
  obtain ⟨type, spelling⟩ := e
  cases type with
  | record d => exact ofRecordDefRedirect swap d 0 RecordDef.alignBits
  | enum d => exact baseSizeRedirect swap ⟨.enum d, spelling⟩
  | builtin | pointer | reference | array | synonym | sugar | dependentSpecialization
  | unmodelled => rfl

end

def Chain.redirect (swap : TypeId → TypeId) (c : Chain) : Chain where
  links := (c.links.filter (fun e => e.type.sugarTarget.isNone)).map (TypeEntry.redirect swap)
  base := c.base.redirect swap

structure PassesSugar (t : Table) (next : TypeEntry → Option TypeId) : Prop where
  down : Downward next
  other : ∀ swap e, next (e.redirect swap) = (next e).map swap
  sugar : ∀ {ty e inner}, t.entry? ty = some e → e.type.sugarTarget = some inner → next e = some inner

theorem layoutPasses : t.PassesSugar layoutNext := by
  refine ⟨layoutDownward, ?_, ?_⟩
  · intro swap e
    obtain ⟨type, spelling⟩ := e
    cases type <;> rfl
  · intro ty e inner found step
    obtain ⟨type, spelling⟩ := e
    cases type <;> first | exact step | contradiction

theorem namePasses (unspelled : t.Unspelled) : t.PassesSugar nameNext := by
  refine ⟨nameDownward, ?_, ?_⟩
  · intro swap e
    obtain ⟨type, spelling⟩ := e
    cases spelling <;> cases type <;> rfl
  · intro ty e inner found step
    have spelled := unspelled e (Array.mem_of_getElem? found) (by simp [step])
    obtain ⟨type, spelling⟩ := e
    cases spelled
    cases type <;> first | exact step | contradiction

theorem chainBared (sound : t.Sound) {next} (passes : t.PassesSugar next) {ty : TypeId}
    (inside : ty.raw < t.types.size) :
    t.bared.chain next (t.bare ty) = (t.chain next ty).map (Chain.redirect t.bare) := by
  induction room : ty.raw using Nat.strong_induction_on generalizing ty with
  | _ room ih =>
    subst room
    obtain ⟨e, found⟩ := entryOfRange inside
    cases step : e.type.sugarTarget with
    | some inner =>
      have falls := sound.wraps found (sugarWraps step)
      have rest := ih inner.raw falls (Nat.lt_trans falls inside) rfl
      rw [bareSugar sound found step, rest, chainStep sound passes.down found (passes.sugar found step)]
      cases t.chain next inner with
      | error f => rfl
      | ok c => simp [Except.map, Chain.redirect, step]
    | none =>
      have there := entryBared found
      rw [barePlain found step]
      cases link : next e with
      | none =>
        have last : next (e.redirect t.bare) = none := by rw [passes.other, link]; rfl
        rw [chainEnd found link, chainEnd there last]
        rfl
      | some inner =>
        have falls := sound.wraps found (passes.down e inner link)
        have rest := ih inner.raw falls (Nat.lt_trans falls inside) rfl
        have further : next (e.redirect t.bare) = some (t.bare inner) := by rw [passes.other, link]; rfl
        rw [chainStep sound passes.down found link,
          chainStep (baredSound sound) passes.down there further, rest]
        cases t.chain next inner with
        | error f => rfl
        | ok c => simp [Except.map, Chain.redirect, step]

theorem linksRedirect {α : Type} {step : TypeEntry → α → α} (swap : TypeId → TypeId)
    (other : ∀ e a, step (e.redirect swap) a = step e a)
    (quiet : ∀ e a, e.type.sugarTarget ≠ none → step e a = a) (c : Chain) (a : α) :
    (c.redirect swap).links.foldr step a = c.links.foldr step a := by
  obtain ⟨links, base⟩ := c
  simp only [Chain.redirect]
  induction links with
  | nil => rfl
  | cons e rest ih =>
    cases target : e.type.sugarTarget with
    | none => simpa [target, other] using congrArg (step e) ih
    | some inner => simpa [target, quiet e _ (by simp [target])] using ih

section
variable (sound : t.Sound) {ty : TypeId} (inside : ty.raw < t.types.size)
include sound inside

theorem isCompleteBared : t.bared.isComplete (t.bare ty) = t.isComplete ty := by
  rw [isComplete, isComplete, chainBared sound layoutPasses inside]
  cases t.chain layoutNext ty with
  | error f => rfl
  | ok c =>
    obtain ⟨links, type, spelling⟩ := c
    cases type with
    | record d | enum d => exact isDefinedRedirect t.bare d
    | unmodelled category => cases category <;> rfl
    | builtin | pointer | reference | array | synonym | sugar | dependentSpecialization => rfl

theorem sizeInBitsBared : t.bared.sizeInBits (t.bare ty) = t.sizeInBits ty := by
  rw [sizeInBits, sizeInBits, chainBared sound layoutPasses inside]
  cases t.chain layoutNext ty with
  | error f => rfl
  | ok c =>
    have base : t.bared.baseSize (c.redirect t.bare).base = t.baseSize c.base :=
      baseSizeRedirect t.bare c.base
    have links : ∀ size, (c.redirect t.bare).links.foldr scaleSize size =
        c.links.foldr scaleSize size := by
      refine linksRedirect t.bare (fun e size => ?_) (fun e size target => ?_) c <;>
        obtain ⟨type, spelling⟩ := e <;> cases type <;> first | rfl | exact absurd rfl target
    simp only [Except.map, bind, Except.bind, base, links]

theorem alignInBitsBared : t.bared.alignInBits (t.bare ty) = t.alignInBits ty := by
  rw [alignInBits, alignInBits, chainBared sound layoutPasses inside]
  cases t.chain layoutNext ty with
  | error f => rfl
  | ok c => exact baseAlignRedirect t.bare c.base

theorem displayNameBared (unspelled : t.Unspelled) :
    t.bared.displayName (t.bare ty) = t.displayName ty := by
  rw [displayName, displayName, chainBared sound (namePasses unspelled) inside]
  cases t.chain nameNext ty with
  | error f => rfl
  | ok c =>
    have base : t.bared.baseName (c.redirect t.bare).base = t.baseName c.base :=
      baseNameRedirect t.bare c.base
    have links : ∀ name, (c.redirect t.bare).links.foldr (fun e name => name ++ nameSuffix e) name =
        c.links.foldr (fun e name => name ++ nameSuffix e) name := by
      refine linksRedirect t.bare (fun e name => ?_) (fun e name target => ?_) c <;>
        obtain ⟨type, spelling⟩ := e <;> cases type <;>
        first | rfl | exact String.append_empty | exact absurd rfl target
    simp only [Except.map, bind, Except.bind, base, links]

end

structure Alike (t : Table) (ty : TypeId) : Prop where
  complete : t.bared.isComplete ty = t.isComplete ty
  size : t.bared.sizeInBits ty = t.sizeInBits ty
  align : t.bared.alignInBits ty = t.alignInBits ty
  name : t.bared.displayName ty = t.displayName ty

theorem plainAlike (sound : t.Sound) (unspelled : t.Unspelled) {ty : TypeId} {e : TypeEntry}
    (found : t.entry? ty = some e) (plain : e.type.sugarTarget = none) : t.Alike ty := by
  have inside := entryInRange found
  have itself := barePlain found plain
  refine ⟨?_, ?_, ?_, ?_⟩
  · rw [← isCompleteBared sound inside, itself]
  · rw [← sizeInBitsBared sound inside, itself]
  · rw [← alignInBitsBared sound inside, itself]
  · rw [← displayNameBared sound inside unspelled, itself]

end Table
end ObjectLayout
