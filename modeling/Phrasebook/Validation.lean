import Phrasebook.Registry

/-! The structural contract of a template: no pool is empty, no choice is, percentages stay within
100, and every reference finds its unit, its variation and a value for the unit's argument. -/

namespace Phrasebook

namespace Modifiers

/-- Percentages above 100 mean nothing. -/
def check (owner : UnitKey) (modifiers : Modifiers) : Except TemplateError Unit :=
  if modifiers.inclusionPercent > 100 then
    .error (.invalidPercent owner modifiers.inclusionPercent)
  else
    .ok ()

end Modifiers

namespace Reference

/-- A reference needs a unit that is declared and has the variation asked for, and a value if the
unit declares an argument. -/
def check (registry : Registry) (reference : Reference) : Except TemplateError Unit := do
  let target ← registry.resolve reference.target
  match reference.variation with
  | some variation =>
    unless target.variations.contains variation do
      throw (.unknownVariation target.key variation)
  | none => pure ()
  if target.argumentName.isSome && reference.modifiers.argumentValue.isNone then
    throw (.missingArgument target.key)

end Reference

mutual

/-- Checks a content of a rule of `owner`, its percentage first. -/
def Content.check (registry : Registry) (owner : UnitKey) : Content → Except TemplateError Unit
  | .word _ => pure ()
  | .wordGroup _ modifiers => modifiers.check owner
  | .choice branches modifiers => do
    modifiers.check owner
    if branches.isEmpty then
      throw (.emptyChoice owner)
    Rule.checkAll registry owner branches
  | .reference ref => do
    ref.modifiers.check owner
    ref.check registry

def Content.checkAll (registry : Registry) (owner : UnitKey) :
    List Content → Except TemplateError Unit
  | [] => pure ()
  | content :: rest => do
    content.check registry owner
    Content.checkAll registry owner rest

/-- Checks the contents of a rule of `owner` in order. -/
def Rule.check (registry : Registry) (owner : UnitKey) : Rule → Except TemplateError Unit
  | { contents, .. } => Content.checkAll registry owner contents

def Rule.checkAll (registry : Registry) (owner : UnitKey) : List Rule → Except TemplateError Unit
  | [] => pure ()
  | rule :: rest => do
    rule.check registry owner
    Rule.checkAll registry owner rest

end

/-- Checks that no pool of a unit is empty, then the rules of all its pools. -/
def Definition.check (registry : Registry) (definition : Definition) :
    Except TemplateError Unit := do
  definition.poolNames.forM fun variation => discard (definition.rulesFor variation)
  Rule.checkAll registry definition.key definition.allRules

/-- Checks all units in the order of their keys; the first fault found is the answer. -/
def Registry.check (registry : Registry) : Except TemplateError Unit :=
  registry.units.forM (·.check registry)

end Phrasebook
