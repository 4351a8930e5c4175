import Phrasebook.Json.Record
import Phrasebook.Json.Text

/-! The options of a run, with their defaults and the values that are refused. -/

namespace Phrasebook

open Json

/-- What a run may be told apart from its template. -/
structure Options where
  /-- All random choices of a run follow from it. -/
  seed : UInt64 := 42
  /-- Examples are sampled while the request is at most this fraction of the possibilities. -/
  samplingDivisor : UInt64 := 5
  /-- For each possibility, so many repeated samples are put up with. -/
  maxLoopFactor : UInt64 := 5
  /-- No list of expansions may be longer. -/
  expansionLimit : UInt64 := 250000
  /-- No chain of nested units may be longer while sampling. -/
  maxDepth : UInt64 := 64
  /-- Intents may be generated at the same time. -/
  parallel : Bool := true
  /-- Too few examples for a request are an error. -/
  strict : Bool := false
deriving DecidableEq, Repr

/-- An option that must not be 0. -/
inductive OptionsError where
  | samplingDivisor
  | maxLoopFactor
  | expansionLimit
  | maxDepth
deriving DecidableEq, Repr

def OptionsError.message : OptionsError → String
  | samplingDivisor => "sampling_divisor must be >= 1"
  | maxLoopFactor => "max_loop_factor must be >= 1"
  | expansionLimit => "expansion_limit must be >= 1"
  | maxDepth => "max_depth must be >= 1"

namespace Options

/-- Refuses the first option that is 0 and must not be. -/
def check (options : Options) : Except OptionsError Unit := do
  if options.samplingDivisor = 0 then throw .samplingDivisor
  if options.maxLoopFactor = 0 then throw .maxLoopFactor
  if options.expansionLimit = 0 then throw .expansionLimit
  if options.maxDepth = 0 then throw .maxDepth

def read (origin : Origin) (reading : Reading) : Except Fault Options :=
  reading.readRecord origin [
    .optional "seed" Reading.readUInt64 fun seed o => { o with seed },
    .optional "sampling_divisor" Reading.readUInt64 fun samplingDivisor o =>
      { o with samplingDivisor },
    .optional "max_loop_factor" Reading.readUInt64 fun maxLoopFactor o => { o with maxLoopFactor },
    .optional "expansion_limit" Reading.readUInt64 fun expansionLimit o =>
      { o with expansionLimit },
    .optional "max_depth" Reading.readUInt64 fun maxDepth o => { o with maxDepth },
    .optional "parallel" Reading.readBool fun parallel o => { o with parallel },
    .optional "strict" Reading.readBool fun strict o => { o with strict }]
    {}

def ofJsonText (text : String) : Except Fault Options := readText (read .text) text

def toJson (options : Options) : Json :=
  .object [("seed", .number options.seed.toNat),
    ("sampling_divisor", .number options.samplingDivisor.toNat),
    ("max_loop_factor", .number options.maxLoopFactor.toNat),
    ("expansion_limit", .number options.expansionLimit.toNat),
    ("max_depth", .number options.maxDepth.toNat),
    ("parallel", .bool options.parallel),
    ("strict", .bool options.strict)]

end Options

end Phrasebook
