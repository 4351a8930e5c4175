import Phrasebook.Unit

/-! What can be wrong with a template. Each cause carries the unit it was found at, and the wording
of a message is fixed here and nowhere else. -/

namespace Phrasebook

/-- A fault of a template, which no generation can work around. -/
inductive TemplateError where
  /-- A reference names a unit that is not declared. -/
  | undefinedUnit (unit : UnitKey)
  /-- A unit is asked for a variation that it does not declare. -/
  | unknownVariation (unit : UnitKey) (variation : String)
  /-- The default pool of a unit, or the pool of a variation, is empty. -/
  | missingRules (unit : UnitKey) (variation : Option String)
  /-- A choice in a rule of the unit has no branch. -/
  | emptyChoice (unit : UnitKey)
  /-- The unit declares an argument and is used without a value for it. -/
  | missingArgument (unit : UnitKey)
  /-- A content of the unit has an inclusion percentage above 100. -/
  | invalidPercent (unit : UnitKey) (percent : UInt8)
  /-- A second unit has the same kind and name. -/
  | duplicateUnit (unit : UnitKey)
deriving DecidableEq, Repr

namespace TemplateError

def message : TemplateError → String
  | undefinedUnit unit => s!"undefined {unit.describe}"
  | unknownVariation unit variation => s!"{unit.describe} has no variation '{variation}'"
  | missingRules unit none => s!"{unit.describe} has no rules"
  | missingRules unit (some variation) => s!"{unit.describe} has no rules in variation '{variation}'"
  | emptyChoice unit => s!"{unit.describe} contains a choice without branches"
  | missingArgument unit => s!"{unit.describe} requires an argument value"
  | invalidPercent unit percent =>
    s!"{unit.describe} uses inclusion percentage {percent} (must be <= 100)"
  | duplicateUnit unit => s!"duplicate {unit.describe}"

end TemplateError

end Phrasebook
