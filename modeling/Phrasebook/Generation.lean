import Phrasebook.ReferenceGraph
import Phrasebook.Report
import Phrasebook.Validation

/-! A run over all intents of a template: options and template are checked, then each intent gets its
batch, and the batch is split into training and testing examples. The intents are done in turn or in
parallel; what is made stands in the order of names in either case. -/

namespace Phrasebook

open Json Std

structure IntentExamples where
  intent : String
  training : List Example
  testing : List Example

namespace IntentExamples

def toJson (examples : IntentExamples) : Json :=
  .object [("intent", .string examples.intent),
    ("training", .ofList Example.toJson examples.training),
    ("testing", .ofList Example.toJson examples.testing)]

end IntentExamples

structure IntentOutcome where
  examples : IntentExamples
  synonyms : Synonyms
  report : IntentReport
  warnings : List Warning

/-- The first examples are for training; of the rest, those with a text of their own are for testing.
Without a number, all are for training. -/
def splitExamples (examples : List Example) (training : Option Nat) :
    List Example × List Example :=
  match training with
  | none => (examples, [])
  | some count =>
    let first := examples.take count
    let texts := HashSet.ofList (first.map (·.text))
    (first, (examples.drop count).filter fun e => !texts.contains e.text)

namespace Definition

/-- The number of examples to make for an intent: those for training and those for testing, or all. -/
def wanted (definition : Definition) : Option Nat :=
  definition.requestedCount.map fun training =>
    min maxCount (training.toNat + (definition.testingCount.getD 0).toNat)

/-- A request for testing examples has no effect without one for training examples. -/
def testingWarnings (definition : Definition) : List Warning :=
  if definition.requestedCount.isNone && definition.testingCount.getD 0 > 0 then
    [.testingIgnored definition.key.name]
  else
    []

/-- Too few examples are a warning, or an error if options are strict. -/
def partialWarnings (definition : Definition) (strict : Bool) (generated : Nat) :
    Except GenerationError (List Warning) :=
  match definition.wanted with
  | none => .ok []
  | some requested =>
    if requested ≤ generated then .ok []
    else if strict then .error (.partialBatch definition.key requested generated)
    else .ok [.partialBatch definition.key.name requested generated]

def outcome (definition : Definition) (options : Options) (batch : Batch) :
    Except GenerationError IntentOutcome := do
  let intent := definition.key.name
  let (training, testing) :=
    splitExamples batch.examples (definition.requestedCount.map (·.toNat))
  let shortfall ← definition.partialWarnings options.strict (training.length + testing.length)
  return {
    examples := { intent, training, testing }
    synonyms := batch.synonyms
    report := {
      intent
      strategy := batch.strategy
      possibilities := batch.possibilities
      requested := definition.wanted
      trainingGenerated := training.length
      testingGenerated := testing.length
      attempts := batch.attempts
      duplicates := batch.duplicates }
    warnings := definition.testingWarnings ++ shortfall }

end Definition

/-- The result of a run. -/
structure Generation where
  intents : List IntentExamples
  synonyms : Synonyms
  report : Report

namespace Generation

def ofOutcomes (seed : UInt64) (warnings : List Warning) (outcomes : List IntentOutcome) :
    Generation :=
  let synonyms := outcomes.foldl (fun table outcome => table.merge outcome.synonyms) ∅
  { intents := outcomes.map (·.examples)
    synonyms
    report := {
      seed
      intents := outcomes.map (·.report)
      examplesTotal :=
        (outcomes.map fun outcome =>
          outcome.report.trainingGenerated + outcome.report.testingGenerated).foldr (· + ·) 0
      synonymsTotal := synonyms.size
      warnings := warnings ++ outcomes.flatMap (·.warnings) } }

/-- The document with all examples and synonyms of a run. -/
def toJson (generation : Generation) : Json :=
  .object [("seed", .number generation.report.seed.toNat),
    ("intents", .ofList IntentExamples.toJson generation.intents),
    ("synonyms", generation.synonyms.toJson)]

/-- The text of the file with the document, which ends with a new line. -/
def documentText (generation : Generation) (pretty : Bool) : String :=
  (if pretty then generation.toJson.pretty else generation.toJson.compact) ++ "\n"

end Generation

/-- The order in which the intents come to be counted, and the order in which they are finished. -/
structure Schedule where
  counted : List Definition
  finished : List Definition

/-- A run that has come so far: the counts that are known, and for each intent that was counted what
was made of it, or its error. -/
structure Progress where
  memo : CountMemo := ∅
  made : ExtTreeMap UnitKey (Except GenerationError IntentOutcome) := ∅

/-- What was made of the intents that were counted. -/
def Progress.results (progress : Progress) (intents : List Definition) :
    List (Except GenerationError IntentOutcome) :=
  intents.filterMap (progress.made[·.key]?)

namespace Registry

/-- What is made for an intent. Its seed follows from the seed of the run and its name, so that it does
not depend on the other intents. -/
def generateIntent (registry : Registry) (options : Options) (definition : Definition) :
    CountM IntentOutcome := do
  let batch ← registry.batch options definition definition.wanted
    (Seed.ofName options.seed definition.key.name)
  ExceptT.mk (pure (definition.outcome options batch))

/-- The warning that some units refer to themselves. -/
def recursionWarnings (registry : Registry) : List Warning :=
  match (ReferenceGraph.ofRegistry registry).summary.cycle? with
  | none => []
  | some units => [.recursiveUnits units]

/-- Makes an intent with the counts of those that were counted before it, whether these failed or
not. -/
def advance (registry : Registry) (options : Options) (progress : Progress)
    (definition : Definition) : Progress :=
  let (result, memo) := (registry.generateIntent options definition).run progress.memo
  { memo, made := progress.made.insert definition.key result }

/-- What a run comes to that counts intents one after the other. -/
def process (registry : Registry) (options : Options) (intents : List Definition) : Progress :=
  intents.foldl (registry.advance options) {}

/-- Each intent is finished before the next one is counted, in the order of names. -/
def inTurn (registry : Registry) : Schedule := ⟨registry.intents, registry.intents⟩

/-- In parallel, the intents come to be counted and are finished in any order. -/
structure Allows (registry : Registry) (options : Options) (schedule : Schedule) : Prop where
  counted : schedule.counted.Perm registry.intents
  finished : schedule.finished.Perm registry.intents
  inTurn : options.parallel = false → schedule = registry.inTurn

/-- A run by a schedule. Of the intents that fail, the one that is finished first is told. -/
def generateBy (registry : Registry) (options : Options) (schedule : Schedule) :
    Except GenerationError Generation :=
  match options.check with
  | .error error => .error (.invalidOptions error)
  | .ok () =>
    match registry.check with
    | .error error => .error (.template error)
    | .ok () => do
      let progress := registry.process options schedule.counted
      (progress.results schedule.finished).forM discard
      let outcomes ← (progress.results registry.intents).mapM id
      return .ofOutcomes options.seed registry.recursionWarnings outcomes

/-- A run with one intent after the other, which is allowed in parallel as well. -/
def generate (registry : Registry) (options : Options) : Except GenerationError Generation :=
  registry.generateBy options registry.inTurn

end Registry

end Phrasebook
