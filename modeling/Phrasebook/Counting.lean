import Phrasebook.GenerationError
import Phrasebook.Inclusion
import Phrasebook.Registry

/-! How many examples a unit may have, as an upper bound: alternatives add up, contents of a rule
multiply, and every choice of case or inclusion counts. Counts of pools are kept in a memo. A pool
met again while it is being counted is unbounded. -/

namespace Phrasebook

open Std

/-- The pools that were counted, with their counts. -/
abbrev CountMemo := ExtTreeMap PoolKey Possibilities

/-- Counting keeps its memo also when it fails. -/
abbrev CountM := ExceptT GenerationError (StateM CountMemo)

/-- The count of a content under its modifiers, from its count without them. -/
def Modifiers.weigh (modifiers : Modifiers) (base : Possibilities) : Possibilities :=
  (if modifiers.canInclude then base.doubledIf modifiers.varyCase else 0)
    + (if modifiers.canExclude then 1 else 0)

section Contents

variable (countReference : Reference → CountM Possibilities)

mutual

/-- Counts a content; `countReference` counts the pool that a reference draws from. -/
def Content.count : Content → CountM Possibilities
  | .word _ => pure 1
  | .wordGroup _ modifiers => pure (modifiers.weigh 1)
  | .choice branches modifiers => do return modifiers.weigh (← Rule.countAll branches)
  | .reference ref => do return ref.modifiers.weigh (← countReference ref)

/-- The product of the counts of contents. -/
def Content.countAll : List Content → CountM Possibilities
  | [] => pure 1
  | content :: rest => do
    let first ← content.count
    return first * (← Content.countAll rest)

def Rule.count : Rule → CountM Possibilities
  | { contents, .. } => Content.countAll contents

/-- The sum of the counts of rules. -/
def Rule.countAll : List Rule → CountM Possibilities
  | [] => pure 0
  | rule :: rest => do
    let first ← rule.count
    return first + (← Rule.countAll rest)

end

end Contents

/-- Counts a pool of a unit unless its count is known or it is being counted already; a count that
is found is kept. -/
def Definition.countPool (definition : Definition) (variation : Option String)
    (visiting : List PoolKey)
    (countRules : (rules : List Rule) → definition.rulesFor variation = .ok rules →
      ⟨definition.key, variation⟩ ∉ visiting → CountM Possibilities) : CountM Possibilities := do
  let pool : PoolKey := ⟨definition.key, variation⟩
  match (← get)[pool]? with
  | some count => return count
  | none =>
    if fresh : pool ∉ visiting then
      match found : definition.rulesFor variation with
      | .error error => throw (.template error)
      | .ok rules => do
        let total ← countRules rules found fresh
        let count := total.doubledIf definition.varyCase
        modify (·.insert pool count)
        return count
    else
      return .unbounded

namespace Registry

/-- Counts the pool that a reference draws from, inside the pools being counted; the unit is looked
up in any case, but not counted if the reference can never be there. -/
def countReference (registry : Registry) (visiting : List PoolKey) (reference : Reference) :
    CountM Possibilities :=
  match found : registry.get? reference.target with
  | none => throw (.template (.undefinedUnit reference.target))
  | some target =>
    if reference.modifiers.canInclude then
      target.countPool reference.variation visiting fun rules hrules fresh =>
        have := registry.freshPools_cons_lt found hrules fresh
        Rule.countAll
          (fun inner => registry.countReference (⟨target.key, reference.variation⟩ :: visiting) inner)
          rules
    else
      pure 0
termination_by registry.freshPools visiting

def countUnit (registry : Registry) (definition : Definition) (variation : Option String) :
    CountM Possibilities :=
  definition.countPool variation [] fun rules _ _ =>
    Rule.countAll (registry.countReference [⟨definition.key, variation⟩]) rules

end Registry

end Phrasebook
