import Phrasebook.TemplateError
import Phrasebook.Possibilities
import Phrasebook.Options

/-! What can stop the generation of examples, and the wording of each cause. -/

namespace Phrasebook

/-- What was being done when a limit was met. -/
inductive Operation where
  | generateAll
  | generateRandom
  | subsample
deriving DecidableEq, Repr

def Operation.describe : Operation → String
  | generateAll => "generate all"
  | generateRandom => "generate random"
  | subsample => "subsample"

/-- A cause that stops the generation of examples. -/
inductive GenerationError where
  | template (error : TemplateError)
  /-- There are more possibilities than the limit on expansions allows. -/
  | capacityExceeded (unit : UnitKey) (operation : Operation) (limit : Nat)
      (possibilities : Possibilities)
  /-- Units are nested more deeply than the limit on depth allows. -/
  | recursionLimit (unit : UnitKey) (operation : Operation) (depth : Nat)
  /-- A unit is met again inside its own expansion. -/
  | recursiveExpansion (unit : UnitKey)
  | partialBatch (unit : UnitKey) (requested generated : Nat)
  | invalidOptions (error : OptionsError)
deriving DecidableEq, Repr

namespace GenerationError

def message : GenerationError → String
  | template error => s!"invalid template: {error.message}"
  | capacityExceeded unit operation limit possibilities =>
    s!"{operation.describe} of {unit.describe} refused: {possibilities.describe} possibilities "
      ++ s!"exceed the limit of {limit}"
  | recursionLimit unit operation depth =>
    s!"{operation.describe} of {unit.describe} exceeded the recursion depth of {depth}"
  | recursiveExpansion unit =>
    s!"{unit.describe} refers to itself and cannot be fully expanded"
  | partialBatch unit requested generated =>
    s!"{unit.describe}: generated {generated} of {requested} requested examples"
  | invalidOptions error => s!"invalid options: {error.message}"

end GenerationError

end Phrasebook
