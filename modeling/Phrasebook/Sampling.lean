import Phrasebook.Decisions
import Phrasebook.Finishing
import Phrasebook.FirstLetter
import Phrasebook.GenerationError
import Phrasebook.Inclusion
import Phrasebook.Random.Source
import Phrasebook.Registry

/-! Drawing one example at random. Rules, branches, inclusion and case are drawn from a source in
reading order; the decision for a named key is drawn once and then holds for the whole example. Units
may nest up to a limit, so that drawing ends also where units refer to themselves. -/

namespace Phrasebook

open Std

/-- What changes while an example is drawn. -/
structure SampleState (Source : Type) where
  source : Source
  decisions : Decisions := ∅
  synonyms : Synonyms := ∅

/-- Drawing keeps its state also when it fails. -/
abbrev SampleM (Source : Type) := ExceptT GenerationError (StateM (SampleState Source))

namespace SampleM

variable {Source : Type} [RandomSource Source]

/-- Makes a random choice. -/
def draw {α : Type} (choose : Source → α × Source) : SampleM Source α :=
  modifyGet fun state =>
    let (chosen, source) := choose state.source
    (chosen, { state with source })

/-- Draws an index below a number; below 0, none is drawn. -/
def index (count : Nat) : SampleM Source Nat :=
  if h : 0 < count then return (← draw (RandomSource.index count h)).val else return 0

def coin : SampleM Source Bool := draw RandomSource.coin

/-- Draws a decision that is positive with the given percentage. -/
def roll (percent : UInt8) : SampleM Source Bool := do
  return (← index 100) < percent.toNat

/-- The decision for a key, drawn at its first use. -/
def decide (key : String) (percent : UInt8) : SampleM Source Bool := do
  match (← get).decisions[key]? with
  | some decision => return decision
  | none =>
    let decision ← roll percent
    modify fun state => { state with decisions := state.decisions.insert key decision }
    return decision

def record (change : Synonyms → Synonyms) : SampleM Source Unit :=
  modify fun state => { state with synonyms := change state.synonyms }

/-- Puts the first letter of an example into a case that is drawn, if its case varies. -/
def drawCase (varyCase : Bool) (e : Example) : SampleM Source Example := do
  if varyCase then
    let e := e.setCase (← coin)
    record (·.recordMentions e)
    return e
  else
    return e

end SampleM

variable {Source : Type} [RandomSource Source]

namespace Modifiers

def drawInclusion (modifiers : Modifiers) : SampleM Source Bool := do
  match modifiers.randomKey with
  | none => return true
  | some "" => return modifiers.includedBy (← SampleM.roll modifiers.inclusionPercent)
  | some key => return modifiers.includedBy (← SampleM.decide key modifiers.inclusionPercent)

/-- Draws the case of an example and puts a space in front of it, as its content asks for. -/
def drawForm (modifiers : Modifiers) (e : Example) : SampleM Source Example := do
  let e ← SampleM.drawCase modifiers.varyCase e
  return if modifiers.leadingSpace && !e.isEmpty then e.withLeadingSpace else e

/-- Draws whether a content is there, and if so the content and its form. -/
def drawIfIncluded (modifiers : Modifiers) (draw : SampleM Source Example) :
    SampleM Source Example := do
  if ← modifiers.drawInclusion then
    modifiers.drawForm (← draw)
  else
    return {}

end Modifiers

section Contents

variable (drawReference : Reference → SampleM Source Example) (owner : UnitKey)

mutual

def Content.draw : Content → SampleM Source Example
  | .word text => return .ofText text
  | .wordGroup text modifiers => modifiers.drawIfIncluded (return .ofText text)
  | .choice branches modifiers =>
    modifiers.drawIfIncluded do Rule.drawNth branches (← SampleM.index branches.length)
  | .reference ref => drawReference ref

/-- Draws contents in order, each behind what was drawn before. -/
def Content.drawAll (before : Example) : List Content → SampleM Source Example
  | [] => return before
  | content :: rest => do Content.drawAll (before.append (← content.draw)) rest

def Rule.draw : Rule → SampleM Source Example
  | { contents, .. } => Content.drawAll {} contents

/-- Draws the branch at a place. -/
def Rule.drawNth : List Rule → Nat → SampleM Source Example
  | [], _ => throw (.template (.emptyChoice owner))
  | branch :: _, 0 => branch.draw
  | _ :: rest, place + 1 => Rule.drawNth rest place

end

end Contents

namespace Registry

/-- Draws what a reference brings; `drawUnit` draws the unit that it refers to. -/
def drawReference (registry : Registry)
    (drawUnit : Definition → Option String → Option String → SampleM Source Example)
    (reference : Reference) : SampleM Source Example :=
  match registry.get? reference.target with
  | none => throw (.template (.undefinedUnit reference.target))
  | some target =>
    reference.modifiers.drawIfIncluded
      (drawUnit target reference.variation reference.modifiers.argumentValue)

/-- Draws a unit, inside `depth` units of at most `maxDepth`: a rule of the pool, its contents, the
case of the text, and last the argument is bound. -/
def drawUnit (registry : Registry) (maxDepth depth : Nat) (definition : Definition)
    (variation argument : Option String) : SampleM Source Example :=
  if _room : depth < maxDepth then do
    match definition.rulesFor variation with
    | .error error => throw (.template error)
    | .ok rules =>
      match rules[← SampleM.index rules.length]? with
      | none => throw (.template (.missingRules definition.key variation))
      | some rule =>
        let drawn ← rule.draw (registry.drawReference fun target variation argument =>
          registry.drawUnit maxDepth (depth + 1) target variation argument) definition.key
        let drawn ← SampleM.drawCase definition.varyCase drawn
        match definition.finish rule argument drawn with
        | .error error => throw (.template error)
        | .ok finished =>
          SampleM.record (definition.recordSlot · finished)
          return finished
  else
    throw (.recursionLimit definition.key .generateRandom maxDepth)
termination_by maxDepth - depth

/-- Draws the contents of a rule of a unit, with its references inside `depth` units. -/
def drawRule (registry : Registry) (maxDepth depth : Nat) (owner : UnitKey) (rule : Rule) :
    SampleM Source Example :=
  rule.draw (registry.drawReference (registry.drawUnit maxDepth depth)) owner

end Registry

end Phrasebook
