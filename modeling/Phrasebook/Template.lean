import Phrasebook.TemplateError

/-! Templates: units with pools of rules, rules as sequences of contents, and the modifiers that make
a content optional, vary its case or bind an argument of the unit it refers to. -/

namespace Phrasebook

open Std

/-- How a content is brought into the text. -/
structure Modifiers where
  /-- A space goes before the text, if there is any text. -/
  leadingSpace : Bool := false
  /-- The first letter may have either case. -/
  varyCase : Bool := false
  /-- No key: the content is always there. An empty key: it is optional, decided each time. Any
  other key: it is optional, decided once per example for all contents with that key. -/
  randomKey : Option String := none
  /-- The chance, in percent, that a decision is positive. -/
  inclusionPercent : UInt8 := 50
  /-- The content is there exactly when the decision is negative. -/
  randomOpposite : Bool := false
  /-- The value for the argument of the unit referred to. -/
  argumentValue : Option String := none
deriving DecidableEq, Repr

namespace Modifiers

/-- An optional content; an empty key decides it each time. -/
def optional (key : String) (percent : UInt8) : Modifiers :=
  { randomKey := some key, inclusionPercent := percent }

def isOptional (modifiers : Modifiers) : Bool := modifiers.randomKey.isSome

/-- The key whose decision the content shares with others. -/
def correlationKey (modifiers : Modifiers) : Option String :=
  modifiers.randomKey.filter (· ≠ "")

end Modifiers

/-- A use of another unit, by its default pool or the pool of a variation. -/
structure Reference where
  target : UnitKey
  variation : Option String := none
  modifiers : Modifiers := {}
deriving DecidableEq, Repr

namespace Reference

def pool (reference : Reference) : PoolKey := ⟨reference.target, reference.variation⟩

/-- Binds the argument of the target, leaving the other modifiers. -/
def withArgument (reference : Reference) (value : String) : Reference :=
  { reference with modifiers := { reference.modifiers with argumentValue := some value } }

end Reference

mutual

/-- A building block of a rule. -/
inductive Content where
  /-- Exactly this text. -/
  | word (text : String)
  /-- A text under modifiers. -/
  | wordGroup (text : String) (modifiers : Modifiers)
  /-- One of the branches. -/
  | choice (branches : List Rule) (modifiers : Modifiers)
  /-- A text of another unit. -/
  | reference (ref : Reference)

/-- One alternative of a pool: contents in order and, for a slot, the value that they stand for. -/
structure Rule where
  contents : List Content := []
  slotValue : Option String := none

end

deriving instance BEq, Repr, Inhabited for Content, Rule

def Content.modifiers? : Content → Option Modifiers
  | .word _ => none
  | .wordGroup _ modifiers => some modifiers
  | .choice _ modifiers => some modifiers
  | .reference ref => some ref.modifiers

/-- The text of a rule that is a single word or word group. -/
def Rule.singleLiteral? (rule : Rule) : Option String :=
  match rule.contents with
  | [.word text] => some text
  | [.wordGroup text _] => some text
  | _ => none

mutual

/-- The references of a content at any depth of choices, in reading order. -/
def Content.references : Content → List Reference
  | .word _ => []
  | .wordGroup _ _ => []
  | .choice branches _ => Rule.referencesOfAll branches
  | .reference ref => [ref]

def Content.referencesOfAll : List Content → List Reference
  | [] => []
  | content :: rest => content.references ++ Content.referencesOfAll rest

/-- The references of a rule at any depth of choices, in reading order. -/
def Rule.references : Rule → List Reference
  | { contents, .. } => Content.referencesOfAll contents

def Rule.referencesOfAll : List Rule → List Reference
  | [] => []
  | rule :: rest => rule.references ++ Rule.referencesOfAll rest

end

/-- A unit with its pools of rules. -/
structure Definition where
  key : UnitKey
  /-- The name that markers in the unit's texts refer to. -/
  argumentName : Option String := none
  /-- Each text of the unit may start with either case. -/
  varyCase : Bool := false
  rules : List Rule
  variations : ExtTreeMap String (List Rule) := ∅
  /-- The number of training examples wanted of an intent; without it, all examples are. -/
  requestedCount : Option UInt64 := none
  /-- The number of examples wanted for testing, apart from the training examples. -/
  testingCount : Option UInt64 := none

namespace Definition

/-- Adds the pool of a variation, in place of an earlier one of that name. -/
def withVariation (definition : Definition) (name : String) (rules : List Rule) : Definition :=
  { definition with variations := definition.variations.insert name rules }

/-- The rules of a pool, of which there is at least one. -/
def rulesFor (definition : Definition) : Option String → Except TemplateError (List Rule)
  | none => nonempty none definition.rules
  | some variation =>
    match definition.variations[variation]? with
    | none => .error (.unknownVariation definition.key variation)
    | some rules => nonempty (some variation) rules
where
  nonempty (variation : Option String) (rules : List Rule) : Except TemplateError (List Rule) :=
    if rules.isEmpty then .error (.missingRules definition.key variation) else .ok rules

/-- The rules of all pools: the default pool, then the variations in the order of their names. -/
def allRules (definition : Definition) : List Rule :=
  definition.rules ++ definition.variations.toList.flatMap (·.2)

/-- The names of the pools: the default pool, then the variations in order. -/
def poolNames (definition : Definition) : List (Option String) :=
  none :: definition.variations.toList.map (some ·.1)

/-- Every pool that has rules is named. -/
theorem mem_poolNames_of_rulesFor {definition : Definition} {variation : Option String}
    {rules : List Rule} (h : definition.rulesFor variation = .ok rules) :
    variation ∈ definition.poolNames := by
  cases variation with
  | none => simp [poolNames]
  | some name =>
    simp only [rulesFor] at h
    split at h
    · contradiction
    · next found =>
      have := ExtTreeMap.mem_toList_iff_getElem?_eq_some.mpr found
      simp only [poolNames, List.mem_cons, List.mem_map]
      exact .inr ⟨_, this, rfl⟩

def references (definition : Definition) : List Reference :=
  Rule.referencesOfAll definition.allRules

end Definition

/-- All units that a template declares, in the order in which it declares them. -/
structure Template where
  units : List Definition

end Phrasebook
