import Phrasebook.Batch
import Phrasebook.Example.Json

/-! What a run tells about itself: a line for each intent, totals, and warnings about what was not as
requested. -/

namespace Phrasebook

open Json

/-- Something that a run has to tell without failing. -/
inductive Warning where
  /-- Some units refer to themselves, directly or through others, or depend on such units. -/
  | recursiveUnits (units : List UnitKey)
  /-- A number of testing examples was requested of an intent that gives all its examples. -/
  | testingIgnored (intent : String)
  /-- An intent gave fewer examples than requested. -/
  | partialBatch (intent : String) (requested generated : Nat)
deriving DecidableEq, Repr

namespace Warning

def code : Warning → String
  | recursiveUnits _ => "recursive_units"
  | testingIgnored _ => "testing_ignored"
  | partialBatch _ _ _ => "partial_batch"

def message : Warning → String
  | recursiveUnits units =>
    "recursive units: " ++ ", ".intercalate (units.map UnitKey.describe)
  | testingIgnored _ => "testing examples are not split off when every possibility is generated"
  | partialBatch _ requested generated => s!"generated {generated} of {requested} requested examples"

/-- The intent that a warning is about, if it is about one. -/
def intent? : Warning → Option String
  | recursiveUnits _ => none
  | testingIgnored intent => some intent
  | partialBatch intent _ _ => some intent

/-- Whether the warning tells of missing examples. -/
def isPartial : Warning → Bool
  | partialBatch _ _ _ => true
  | _ => false

def toJson (warning : Warning) : Json :=
  .object <|
    [("level", .string "warning"), ("code", .string warning.code),
      ("message", .string warning.message)]
    ++ memberIfSome "intent" .string warning.intent?

end Warning

structure IntentReport where
  intent : String
  strategy : Strategy
  possibilities : Possibilities
  requested : Option Nat
  trainingGenerated : Nat
  testingGenerated : Nat
  attempts : Nat
  duplicates : Nat

namespace IntentReport

def toJson (report : IntentReport) : Json :=
  .object [("intent", .string report.intent),
    ("strategy", .string report.strategy.label),
    ("possibilities", report.possibilities.toJson),
    ("requested", .ofOption (fun requested => .number requested) report.requested),
    ("training_generated", .number report.trainingGenerated),
    ("testing_generated", .number report.testingGenerated),
    ("attempts", .number report.attempts),
    ("duplicates", .number report.duplicates)]

end IntentReport

/-- What a run tells about itself. -/
structure Report where
  seed : UInt64
  intents : List IntentReport
  examplesTotal : Nat
  synonymsTotal : Nat
  warnings : List Warning

namespace Report

def isPartial (report : Report) : Bool := report.warnings.any Warning.isPartial

/-- The written form, with the duration of the run in milliseconds if it was measured. -/
def toJson (report : Report) (duration : Option Nat) : Json :=
  .object <|
    [("seed", .number report.seed.toNat),
      ("intents", .ofList IntentReport.toJson report.intents),
      ("examples_total", .number report.examplesTotal),
      ("synonyms_total", .number report.synonymsTotal)]
    ++ memberIfSome "duration_ms" (fun duration => .number duration) duration
    ++ [("warnings", .ofList Warning.toJson report.warnings)]

end Report

end Phrasebook
