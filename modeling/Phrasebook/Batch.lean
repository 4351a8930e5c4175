import Phrasebook.Counting
import Phrasebook.Expansion
import Phrasebook.Random.ChaCha
import Phrasebook.Random.Seed
import Phrasebook.Random.Subset
import Phrasebook.Sampling

/-! Batches of examples of one unit. A small request is sampled at random until enough different texts
are found or too many were found before; a large one is chosen at random from all examples; without
a number, all examples are given. -/

namespace Phrasebook

inductive Strategy where
  | exhaustive
  | randomSampling
  | exhaustiveSubsample
deriving DecidableEq, Repr

namespace Strategy

def label : Strategy → String
  | exhaustive => "exhaustive"
  | randomSampling => "random_sampling"
  | exhaustiveSubsample => "exhaustive_subsample"

/-- Requests up to a fraction of the possibilities are sampled, larger ones chosen from all. -/
def choose (requested : Option Nat) (possibilities : Possibilities) (divisor : UInt64) : Strategy :=
  match requested with
  | none => exhaustive
  | some requested =>
    match possibilities.dividedBy divisor with
    | .unbounded => randomSampling
    | .finite threshold => if requested ≤ threshold.toNat then randomSampling else exhaustiveSubsample

end Strategy

/-- Examples of a unit, with how they were found. -/
structure Batch where
  examples : List Example
  synonyms : Synonyms
  strategy : Strategy
  possibilities : Possibilities
  /-- How often an example was drawn. -/
  attempts : Nat := 0
  /-- How many drawn examples had a text that was found before. -/
  duplicates : Nat := 0

namespace Batch

def isPartial (batch : Batch) : Option Nat → Bool
  | none => false
  | some requested => batch.examples.length < requested

end Batch

/-- The largest number of 64 bits, at which sums and products stop. -/
def maxCount : Nat := UInt64.size - 1

/-- How many duplicates are put up with: a multiple of the possibilities, or of the request if they are
unbounded, and at least one. -/
def retryBudget (requested : Nat) (possibilities : Possibilities) (factor : UInt64) : Nat :=
  let base :=
    match possibilities.finite? with
    | some count => count.toNat
    | none => requested
  max 1 (min maxCount (base * factor.toNat))

/-- Where sampling stands. -/
structure SampleRun where
  found : Array Example := #[]
  texts : Std.HashSet String := ∅
  synonyms : Synonyms := ∅
  attempts : Nat := 0
  duplicates : Nat := 0

namespace SampleRun

/-- Takes the example of an attempt and its synonyms, or drops both if the text was found before. -/
def add (run : SampleRun) (drawn : Example × Synonyms) : SampleRun :=
  if run.texts.contains drawn.1.text then
    { run with attempts := run.attempts + 1, duplicates := run.duplicates + 1 }
  else {
    run with
    found := run.found.push drawn.1
    texts := run.texts.insert drawn.1.text
    synonyms := run.synonyms.merge drawn.2
    attempts := run.attempts + 1 }

/-- Each attempt either finds an example or is a duplicate. -/
theorem add_cases (run : SampleRun) (drawn : Example × Synonyms) :
    ((run.add drawn).found.size = run.found.size + 1 ∧
      (run.add drawn).duplicates = run.duplicates) ∨
    ((run.add drawn).found.size = run.found.size ∧
      (run.add drawn).duplicates = run.duplicates + 1) := by
  unfold add
  split <;> simp

/-- Draws until enough examples are found or the duplicates use up the budget. -/
def continueWith (draw : Nat → Except GenerationError (Example × Synonyms)) (requested budget : Nat)
    (run : SampleRun) : Except GenerationError SampleRun :=
  if _more : run.found.size < requested ∧ run.duplicates < budget then
    match draw run.attempts with
    | .error error => .error error
    | .ok drawn =>
      have := run.add_cases drawn
      (run.add drawn).continueWith draw requested budget
  else
    .ok run
termination_by (requested - run.found.size) + (budget - run.duplicates)

end SampleRun

namespace Registry

def drawOnce {Source : Type} [RandomSource Source] (registry : Registry) (maxDepth : Nat)
    (definition : Definition) (source : Source) : Except GenerationError (Example × Synonyms) :=
  match (registry.drawUnit maxDepth 0 definition none none).run { source } with
  | (.error error, _) => .error error
  | (.ok drawn, state) => .ok (drawn, state.synonyms)

def drawAttempt (registry : Registry) (maxDepth : Nat) (definition : Definition) (seed : UInt64)
    (attempt : Nat) : Except GenerationError (Example × Synonyms) :=
  registry.drawOnce maxDepth definition
    (ChaCha.ofSeed (Seed.ofAttempt seed (UInt64.ofNat attempt)))

def sampleBatch (registry : Registry) (options : Options) (definition : Definition)
    (requested : Nat) (possibilities : Possibilities) (seed : UInt64) :
    Except GenerationError Batch := do
  let budget := retryBudget requested possibilities options.maxLoopFactor
  let run ← SampleRun.continueWith
    (registry.drawAttempt options.maxDepth.toNat definition seed) requested budget {}
  return {
    examples := run.found.toList
    synonyms := run.synonyms
    strategy := .randomSampling
    possibilities
    attempts := run.attempts
    duplicates := run.duplicates }

/-- All examples of a unit with different texts, and the synonyms met; refused if there may be more
than the limit allows. -/
def uniqueExamples (registry : Registry) (options : Options) (definition : Definition)
    (possibilities : Possibilities) (operation : Operation) :
    Except GenerationError (List Example × Synonyms) :=
  let limit := options.expansionLimit.toNat
  if possibilities.exceeds limit then
    .error (.capacityExceeded definition.key operation limit possibilities)
  else
    match (registry.examplesOf limit definition none none).run {} with
    | (.error error, _) => .error error
    | (.ok all, state) => .ok (distinctBy (·.text) all, state.synonyms)

def exhaustiveBatch (registry : Registry) (options : Options) (definition : Definition)
    (possibilities : Possibilities) : Except GenerationError Batch := do
  let (examples, synonyms) ← registry.uniqueExamples options definition possibilities .generateAll
  return { examples, synonyms, strategy := .exhaustive, possibilities }

/-- The items whose place is among the chosen ones. -/
def keepChosen {α : Type} (chosen : List Nat) (items : List α) : List α :=
  let places := Std.HashSet.ofList chosen
  (items.zipIdx.filter fun (_, place) => places.contains place).map (·.1)

/-- A batch of examples chosen at random from all examples of a unit, in their order. -/
def subsampleBatch (registry : Registry) (options : Options) (definition : Definition)
    (requested : Nat) (possibilities : Possibilities) (seed : UInt64) :
    Except GenerationError Batch := do
  let (all, synonyms) ← registry.uniqueExamples options definition possibilities .subsample
  let examples :=
    if all.length ≤ requested then all
    else keepChosen (Subset.choose all.length requested (ChaCha.ofSeed seed)).1 all
  return { examples, synonyms, strategy := .exhaustiveSubsample, possibilities }

/-- A batch of examples of a unit. The possibilities are counted first, with the counts known so
far. -/
def batch (registry : Registry) (options : Options) (definition : Definition)
    (requested : Option Nat) (seed : UInt64) : CountM Batch := do
  let possibilities ← registry.countUnit definition none
  match Strategy.choose requested possibilities options.samplingDivisor, requested with
  | .randomSampling, some requested =>
    ExceptT.mk (pure (registry.sampleBatch options definition requested possibilities seed))
  | .exhaustiveSubsample, some requested =>
    ExceptT.mk (pure (registry.subsampleBatch options definition requested possibilities seed))
  | _, _ => ExceptT.mk (pure (registry.exhaustiveBatch options definition possibilities))

end Registry

end Phrasebook
