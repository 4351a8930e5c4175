import Phrasebook.Decisions
import Phrasebook.Distinct
import Phrasebook.Finishing
import Phrasebook.FirstLetter
import Phrasebook.GenerationError
import Phrasebook.Inclusion
import Phrasebook.Registry

/-! All examples of a unit. Each content stands for a list of alternatives, each under the decisions on
named keys that it depends on; a rule combines the alternatives of its contents as far as their
decisions agree. Repetitions are dropped at every step, and no list may grow beyond a limit. -/

namespace Phrasebook

open Std

/-- An example under the decisions that bring it about. -/
structure Expansion where
  result : Example := {}
  decisions : Decisions := ∅
deriving DecidableEq, Hashable

namespace Expansion

def ofText (text : String) : Expansion := { result := .ofText text }

/-- One expansion behind the other, unless their decisions contradict each other. -/
def append? (first second : Expansion) : Option Expansion :=
  (first.decisions.merge? second.decisions).map fun decisions =>
    { result := first.result.append second.result, decisions }

end Expansion

/-- The use of a pool with a value for the argument of its unit. -/
structure PoolCall where
  pool : PoolKey
  argument : Option String
deriving DecidableEq, Repr

namespace PoolCall

instance : Ord PoolCall := ⟨compareLex (compareOn pool) (compareOn argument)⟩

instance : TransOrd PoolCall :=
  inferInstanceAs (TransCmp (compareLex (compareOn pool) (compareOn argument)))

instance : LawfulEqOrd PoolCall where
  eq_of_compare {a b} h := by
    obtain ⟨hp, ha⟩ := compareLex_eq_eq.mp h
    have hp : a.pool = b.pool := LawfulEqOrd.eq_of_compare hp
    have ha : a.argument = b.argument := LawfulEqOrd.eq_of_compare ha
    cases a; cases b; simp_all

end PoolCall

/-- What is kept between expansions: the expansions of pools, and the synonyms met. -/
structure ExpandState where
  cache : ExtTreeMap PoolCall (List Expansion) := ∅
  synonyms : Synonyms := ∅

/-- Expanding keeps its state also when it fails. -/
abbrev ExpandM := ExceptT GenerationError (StateM ExpandState)

namespace ExpandM

def record (change : Synonyms → Synonyms) : ExpandM Unit :=
  modify fun state => { state with synonyms := change state.synonyms }

/-- Refuses a list of the given size if it is beyond the limit. -/
def checkLimit (limit : Nat) (owner : UnitKey) (size : Nat) : ExpandM Unit :=
  if limit < size then
    throw (.capacityExceeded owner .generateAll limit (.ofNat size))
  else
    return

end ExpandM

namespace Expansion

/-- Adds the pairs of one expansion with each of a list to those found before, up to a limit. -/
def pairWith (limit : Nat) (excess : GenerationError) (first : Expansion)
    (found : Array Expansion) (second : Expansion) : Except GenerationError (Array Expansion) :=
  match first.append? second with
  | none => .ok found
  | some pair => if limit < found.size + 1 then .error excess else .ok (found.push pair)

/-- All pairs of expansions from two lists whose decisions agree. -/
def combine (limit : Nat) (owner : UnitKey) (left right : List Expansion) :
    Except GenerationError (List Expansion) := do
  let excess := .capacityExceeded owner .generateAll limit
    (.ofNat left.length * .ofNat right.length)
  let pairs ← left.foldlM (fun found first => right.foldlM (first.pairWith limit excess) found) #[]
  return distinct pairs.toList

end Expansion

namespace Modifiers

/-- The decision that brings a content. -/
def includingDecision (modifiers : Modifiers) : Bool := !modifiers.randomOpposite

/-- The alternatives under which a content is there, in either case if it varies; the decision on its
key is added, which rules out those that depend on the opposite one. -/
def presentVariants (modifiers : Modifiers) (base : List Expansion) : List Expansion :=
  base.flatMap fun expansion =>
    match expansion.decisions.takeFor? modifiers.correlationKey modifiers.includingDecision with
    | none => []
    | some decisions =>
      (expansion.result.caseVariants modifiers.varyCase).map fun e => { result := e, decisions }

/-- Puts a space in front of an alternative, as its content asks for. -/
def addSpace (modifiers : Modifiers) (e : Example) : Example :=
  if modifiers.leadingSpace && !e.isEmpty then e.withLeadingSpace else e

/-- The alternative without the content, under the opposite decision on its key. -/
def absent (modifiers : Modifiers) : Expansion :=
  { decisions :=
      match modifiers.correlationKey with
      | none => ∅
      | some key => (∅ : Decisions).insert key modifiers.randomOpposite }

/-- The alternatives of a content under its modifiers, from those without them. -/
def expand (modifiers : Modifiers) (base : List Expansion) : ExpandM (List Expansion) := do
  let present := if modifiers.canInclude then modifiers.presentVariants base else []
  if modifiers.varyCase then
    ExpandM.record fun synonyms =>
      present.foldl (fun table expansion => table.recordMentions expansion.result) synonyms
  let spaced := present.map fun expansion =>
    { expansion with result := modifiers.addSpace expansion.result }
  return distinct (spaced ++ if modifiers.canExclude then [modifiers.absent] else [])

end Modifiers

section Contents

variable (expandReference : Reference → ExpandM (List Expansion)) (limit : Nat) (owner : UnitKey)

mutual

/-- The alternatives of a content of a rule of `owner`; `expandReference` gives those of a
reference. -/
def Content.expand : Content → ExpandM (List Expansion)
  | .word text => return [.ofText text]
  | .wordGroup text modifiers => modifiers.expand [.ofText text]
  | .choice branches modifiers => do
    if branches.isEmpty then
      throw (.template (.emptyChoice owner))
    let base ← if modifiers.canInclude then Rule.expandBranches [] branches else pure []
    modifiers.expand (distinct base)
  | .reference ref => expandReference ref

/-- Extends alternatives of the contents before by those of contents, unless none is left. -/
def Content.expandAll (before : List Expansion) : List Content → ExpandM (List Expansion)
  | [] => return before
  | content :: rest => do
    let alternatives ← content.expand
    let extended ← Expansion.combine limit owner before alternatives
    if extended.isEmpty then return [] else Content.expandAll extended rest

def Rule.expand : Rule → ExpandM (List Expansion)
  | { contents, .. } => Content.expandAll [{}] contents

/-- Adds the alternatives of branches to those of the branches before. -/
def Rule.expandBranches (before : List Expansion) : List Rule → ExpandM (List Expansion)
  | [] => return before
  | branch :: rest => do
    let all := before ++ (← branch.expand)
    ExpandM.checkLimit limit owner all.length
    Rule.expandBranches all rest

end

end Contents

namespace Definition

/-- Finishes a variant of an expansion of a rule and adds it to those found before. -/
def finishVariant (limit : Nat) (definition : Definition) (rule : Rule) (argument : Option String)
    (decisions : Decisions) (found : Array Expansion) (variant : Example) :
    ExpandM (Array Expansion) := do
  if definition.varyCase then
    ExpandM.record (·.recordMentions variant)
  match definition.finish rule argument variant with
  | .error error => throw (.template error)
  | .ok finished =>
    ExpandM.record (definition.recordSlot · finished)
    let found := found.push { result := finished, decisions }
    ExpandM.checkLimit limit definition.key found.size
    return found

/-- Expands a rule of a unit, finishes the results in each case that they may have, and adds them to
those found before. -/
def expandRule (limit : Nat) (definition : Definition) (argument : Option String)
    (expand : Rule → ExpandM (List Expansion)) (found : Array Expansion) (rule : Rule) :
    ExpandM (Array Expansion) := do
  (← expand rule).foldlM (fun found expansion =>
    (expansion.result.caseVariants definition.varyCase).foldlM
      (definition.finishVariant limit rule argument expansion.decisions) found) found

/-- Expands a pool of a unit unless its expansions are known; a pool inside its own expansion is
refused. Expansions that are found are kept. -/
def expandPool (limit : Nat) (definition : Definition) (variation argument : Option String)
    (visiting : List PoolKey)
    (expand : (rules : List Rule) → definition.rulesFor variation = .ok rules →
      ⟨definition.key, variation⟩ ∉ visiting → Rule → ExpandM (List Expansion)) :
    ExpandM (List Expansion) := do
  let call : PoolCall := ⟨⟨definition.key, variation⟩, argument⟩
  match (← get).cache[call]? with
  | some expansions => return expansions
  | none =>
    if fresh : call.pool ∉ visiting then
      match found : definition.rulesFor variation with
      | .error error => throw (.template error)
      | .ok rules => do
        let all ← rules.foldlM
          (definition.expandRule limit argument (expand rules found fresh)) #[]
        let expansions := distinct all.toList
        modify fun state => { state with cache := state.cache.insert call expansions }
        return expansions
    else
      throw (.recursiveExpansion definition.key)

end Definition

namespace Registry

/-- The alternatives of a reference, inside the pools being expanded; the unit is looked up in any
case, but not expanded if the reference can never be there. -/
def expandReference (registry : Registry) (limit : Nat) (visiting : List PoolKey)
    (reference : Reference) : ExpandM (List Expansion) := do
  match found : registry.get? reference.target with
  | none => throw (.template (.undefinedUnit reference.target))
  | some target =>
    let base ←
      if reference.modifiers.canInclude then
        target.expandPool limit reference.variation reference.modifiers.argumentValue visiting
          fun _ hrules fresh rule =>
            have := registry.freshPools_cons_lt found hrules fresh
            rule.expand
              (fun inner =>
                registry.expandReference limit (⟨target.key, reference.variation⟩ :: visiting) inner)
              limit target.key
      else
        pure []
    reference.modifiers.expand base
termination_by registry.freshPools visiting

def expandUnit (registry : Registry) (limit : Nat) (definition : Definition)
    (variation argument : Option String) : ExpandM (List Expansion) :=
  definition.expandPool limit variation argument [] fun _ _ _ rule =>
    rule.expand (registry.expandReference limit [⟨definition.key, variation⟩]) limit definition.key

/-- All examples of a pool of a unit, in the order in which they are found first. -/
def examplesOf (registry : Registry) (limit : Nat) (definition : Definition)
    (variation argument : Option String) : ExpandM (List Example) := do
  return distinct ((← registry.expandUnit limit definition variation argument).map (·.result))

end Registry

end Phrasebook
