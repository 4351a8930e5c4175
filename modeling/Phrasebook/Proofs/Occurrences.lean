import Phrasebook.Proofs.Derivation
import Phrasebook.Proofs.Validity

/-! The modifiers that occur in a template, at any depth of choices and in every pool, and what it
means that the contents with one key agree about its percentage. -/

namespace Phrasebook

open Std

mutual

/-- The modifiers in a content at any depth of choices, in reading order. -/
def Content.modifiersWithin : Content → List Modifiers
  | .word _ => []
  | .wordGroup _ modifiers => [modifiers]
  | .choice branches modifiers => modifiers :: Rule.modifiersWithinAll branches
  | .reference ref => [ref.modifiers]

def Content.modifiersWithinAll : List Content → List Modifiers
  | [] => []
  | content :: rest => content.modifiersWithin ++ Content.modifiersWithinAll rest

/-- The modifiers in a rule at any depth of choices, in reading order. -/
def Rule.modifiersWithin : Rule → List Modifiers
  | { contents, .. } => Content.modifiersWithinAll contents

def Rule.modifiersWithinAll : List Rule → List Modifiers
  | [] => []
  | rule :: rest => rule.modifiersWithin ++ Rule.modifiersWithinAll rest

end

theorem Content.modifiers_mem_within {content : Content} {modifiers : Modifiers}
    (h : content.modifiers? = some modifiers) : modifiers ∈ content.modifiersWithin := by
  cases content with
  | word text => cases h
  | wordGroup text own | choice branches own =>
    obtain rfl := Option.some.inj h
    simp [modifiersWithin]
  | reference ref =>
    obtain rfl := Option.some.inj h
    simp [modifiersWithin]

theorem Content.mem_modifiersWithinAll {contents : List Content} {modifiers : Modifiers} :
    modifiers ∈ Content.modifiersWithinAll contents ↔
      ∃ content ∈ contents, modifiers ∈ content.modifiersWithin := by
  induction contents with
  | nil => simp [Content.modifiersWithinAll]
  | cons content rest ih => simp [Content.modifiersWithinAll, ih]

theorem Content.modifiersWithinAll_append (first second : List Content) :
    Content.modifiersWithinAll (first ++ second) =
      Content.modifiersWithinAll first ++ Content.modifiersWithinAll second := by
  induction first with
  | nil => simp [Content.modifiersWithinAll]
  | cons content rest ih => simp [Content.modifiersWithinAll, ih]

theorem Rule.modifiersWithin_eq (rule : Rule) :
    rule.modifiersWithin = Content.modifiersWithinAll rule.contents := by
  cases rule with
  | mk contents slotValue => simp [Rule.modifiersWithin]

theorem Rule.mem_modifiersWithinAll {rules : List Rule} {modifiers : Modifiers} :
    modifiers ∈ Rule.modifiersWithinAll rules ↔
      ∃ rule ∈ rules, modifiers ∈ Content.modifiersWithinAll rule.contents := by
  induction rules with
  | nil => simp [Rule.modifiersWithinAll]
  | cons rule rest ih =>
    simp [Rule.modifiersWithinAll, Rule.modifiersWithin_eq, ih]

def Definition.modifiersWithin (definition : Definition) : List Modifiers :=
  Rule.modifiersWithinAll definition.allRules

/-- The modifiers in all units of a template. -/
def Registry.modifiersWithin (registry : Registry) : List Modifiers :=
  registry.units.flatMap (·.modifiersWithin)

/-- Contents with one key agree about its percentage. -/
def Registry.SharesPercents (registry : Registry) : Prop :=
  ∀ a ∈ registry.modifiersWithin, ∀ b ∈ registry.modifiersWithin, ∀ key,
    a.correlationKey = some key → b.correlationKey = some key →
      a.inclusionPercent = b.inclusionPercent

def Phrase.modifiersWithin : Phrase → List Modifiers
  | .content single => single.modifiersWithin
  | .contents several => Content.modifiersWithinAll several
  | .branches alternatives => Rule.modifiersWithinAll alternatives
  | .rules _ _ alternatives => Rule.modifiersWithinAll alternatives
  | .pool unit _ _ => unit.modifiersWithin

theorem Phrase.mem_modifiersWithin_pool {registry : Registry} {key : UnitKey}
    {definition : Definition} {variation argument : Option String} {modifiers : Modifiers}
    (h : registry.get? key = some definition)
    (hmem : modifiers ∈ (Phrase.pool definition variation argument).modifiersWithin) :
    modifiers ∈ registry.modifiersWithin :=
  List.mem_flatMap.mpr ⟨definition, Registry.mem_units_of_get? h, hmem⟩

theorem Phrase.mem_modifiersWithin_rules {definition : Definition}
    {variation argument : Option String} {rules : List Rule}
    (hrules : definition.rulesFor variation = .ok rules) {modifiers : Modifiers}
    (hmem : modifiers ∈ (Phrase.rules definition argument rules).modifiersWithin) :
    modifiers ∈ (Phrase.pool definition variation argument).modifiersWithin := by
  obtain ⟨rule, hrule, hmem⟩ := Rule.mem_modifiersWithinAll.mp hmem
  exact Rule.mem_modifiersWithinAll.mpr
    ⟨rule, Definition.mem_allRules_of_rulesFor hrules hrule, hmem⟩

end Phrasebook
