import ObjectLayout.Proofs.Expansion.Description

/-! Where an expansion leads, and what stops it there. Both are read off the table alone: which types
a type leads to, and what it is about a type that no layout exists for. -/
namespace ObjectLayout

def TemplateArgument.cause? : TemplateArgument → Option Unsupported
  | .unmodelled kind => some (.argument kind)
  | .template (.indirect kind) => some (.templateName kind)
  | .template (.template _) | .type _ _ | .integral _ _ => none

namespace Table

def IsAddress (t : Table) (ty : TypeId) : Prop := ∃ e, t.entry? ty = some e ∧ e.type.pointee ≠ none

inductive ClassRefuses (t : Table) (o : Options) : TypeClass → Unsupported → Prop
  | builtin {kind} (unmeasured : kind.primitive? o.model = none) :
      ClassRefuses t o (.builtin kind) (.builtin kind)
  | dependent : ClassRefuses t o .dependentSpecialization (.typeClass SugarForm.specialization.name)
  | unmodelled (category : Category) :
      ClassRefuses t o (.unmodelled category) (.typeClass category.name)
  | argument {d info x a cause} (decl : t.decl? d = some (.record info (some x)))
      (member : a ∈ x.templateArgs.getD []) (refused : a.cause? = some cause) :
      ClassRefuses t o (.record d) cause

inductive Refuses (t : Table) (o : Options) (ty : TypeId) (cause : Unsupported) : Prop
  | complete {e} (found : t.entry? ty = some e) (defined : t.isComplete ty = .ok true)
      (refused : t.ClassRefuses o e.type cause) : Refuses t o ty cause

inductive ClassLeads (t : Table) (followed : Prop) : TypeClass → TypeId → Prop
  | element {target} (length : UInt64) : ClassLeads t followed (.array target length) target
  | synonym {target} (form : AliasForm) (name : String) :
      ClassLeads t followed (.synonym form name target) target
  | pointer {target} (follows : followed) : ClassLeads t followed (.pointer target) target
  | reference {target} (follows : followed) : ClassLeads t followed (.reference target) target
  | part {d info x target} (decl : t.decl? d = some (.record info (some x)))
      (member : target ∈ x.mentions) : ClassLeads t followed (.record d) target

inductive Leads (t : Table) (followed : Prop) (ty target : TypeId) : Prop
  | sugar {e} (found : t.entry? ty = some e) (step : e.type.sugarTarget = some target) :
      Leads t followed ty target
  | complete {e} (found : t.entry? ty = some e) (defined : t.isComplete ty = .ok true)
      (leads : t.ClassLeads followed e.type target) : Leads t followed ty target

/-- The types that an expansion comes to. It follows the addresses that are asked for, and the others
only if the options say so. -/
def Reaches (t : Table) (o : Options) (asked : TypeId → Prop) : TypeId → TypeId → Prop :=
  Relation.ReflTransGen (fun ty target => t.Leads (o.chasePointers = true ∨ asked ty) ty target)

theorem classLeadsMono {t : Table} {a b : Prop} (imp : a → b) {c : TypeClass} {target : TypeId}
    (h : t.ClassLeads a c target) : t.ClassLeads b c target := by
  cases h with
  | element length => exact .element length
  | synonym form name => exact .synonym form name
  | pointer follows => exact .pointer (imp follows)
  | reference follows => exact .reference (imp follows)
  | part decl member => exact .part decl member

theorem leadsMono {t : Table} {a b : Prop} (imp : a → b) {ty target : TypeId}
    (h : t.Leads a ty target) : t.Leads b ty target := by
  cases h with
  | sugar found step => exact .sugar found step
  | complete found defined leads => exact .complete found defined (classLeadsMono imp leads)

theorem wrapperAllowed {t : Table} {o : Options} {c : TypeClass} {target : TypeId}
    (wraps : c.wrapped = some target) (cause : Unsupported) : ¬ t.ClassRefuses o c cause := by
  intro refused
  cases refused <;> contradiction

theorem wrapperLeads {t : Table} {followed : Prop} {c : TypeClass} {target : TypeId}
    (wraps : c.wrapped = some target) (plain : c.sugarTarget = none)
    (follows : c.pointee ≠ none → followed) : t.ClassLeads followed c target := by
  cases c with
  | pointer pointee => cases wraps; exact .pointer (follows (Option.some_ne_none _))
  | reference pointee => cases wraps; exact .reference (follows (Option.some_ne_none _))
  | array element length => cases wraps; exact .element length
  | synonym form name aliased => cases wraps; exact .synonym form name
  | _ => contradiction

theorem wrapperOnly {t : Table} {followed : Prop} {c : TypeClass} {target part : TypeId}
    (wraps : c.wrapped = some target) (leads : t.ClassLeads followed c part) : part = target := by
  cases leads with
  | part => contradiction
  | _ => exact Option.some.inj wraps

theorem refusesEntry {t : Table} {o : Options} {ty : TypeId} {e : TypeEntry} {cause : Unsupported}
    (found : t.entry? ty = some e) (h : t.Refuses o ty cause) : t.ClassRefuses o e.type cause := by
  obtain ⟨other, _, refused⟩ := h
  rw [found] at other
  exact Option.some.inj other ▸ refused

theorem leadsEntry {t : Table} {followed : Prop} {ty target : TypeId} {e : TypeEntry}
    (found : t.entry? ty = some e) (h : t.Leads followed ty target) :
    e.type.sugarTarget = some target ∨
      t.isComplete ty = .ok true ∧ t.ClassLeads followed e.type target := by
  cases h with
  | sugar other step =>
    rw [found] at other
    exact .inl (Option.some.inj other ▸ step)
  | complete other defined leads =>
    rw [found] at other
    exact .inr ⟨defined, Option.some.inj other ▸ leads⟩

theorem addressLeads {t : Table} {followed : Prop} {ty target : TypeId} (address : t.IsAddress ty)
    (h : t.Leads followed ty target) : followed := by
  obtain ⟨e, found, pointee⟩ := address
  rcases leadsEntry found h with step | ⟨_, leads⟩
  · generalize e.type = c at step pointee
    cases c <;> simp [TypeClass.pointee, TypeClass.sugarTarget] at pointee step
  · generalize e.type = c at leads pointee
    cases leads with
    | pointer follows => exact follows
    | reference follows => exact follows
    | _ => exact absurd rfl pointee

theorem sugarLeads {t : Table} {followed : Prop} {ty inner target : TypeId} {e : TypeEntry}
    (found : t.entry? ty = some e) (step : e.type.sugarTarget = some inner)
    (h : t.Leads followed ty target) : target = inner := by
  rcases leadsEntry found h with other | ⟨_, leads⟩
  · exact Option.some.inj (other.symm.trans step)
  · exact wrapperOnly (sugarWraps step) leads

theorem reachesMono {t : Table} {o : Options} {asked more : TypeId → Prop}
    (imp : ∀ ty, asked ty → more ty) {ty last : TypeId} (h : t.Reaches o asked ty last) :
    t.Reaches o more ty last :=
  Relation.ReflTransGen.mono (fun _ _ => leadsMono (Or.imp_right (imp _))) _ _ h

end Table
end ObjectLayout
