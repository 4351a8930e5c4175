import Phrasebook.Options
import Phrasebook.Toml.Text

/-! Options in a configuration text: a key for each option, all of them in the outermost table. -/

namespace Phrasebook

namespace Toml.Table

/-- The number of a key, or another one if there is no such key. -/
def natural? (table : Table) (key : String) (fallback : UInt64) : Option UInt64 :=
  match table.get? key with
  | none => some fallback
  | some (.integer value) => if 0 ≤ value then some (UInt64.ofNat value.toNat) else none
  | some _ => none

/-- The truth value of a key, or another one if there is no such key. -/
def flag? (table : Table) (key : String) (fallback : Bool) : Option Bool :=
  match table.get? key with
  | none => some fallback
  | some (.boolean value) => some value
  | some _ => none

end Toml.Table

namespace Options

/-- The options that a table gives; other options keep their defaults. -/
def ofTable? (table : Toml.Table) : Option Options := do
  let defaults : Options := {}
  return {
    seed := ← table.natural? "seed" defaults.seed
    samplingDivisor := ← table.natural? "sampling_divisor" defaults.samplingDivisor
    maxLoopFactor := ← table.natural? "max_loop_factor" defaults.maxLoopFactor
    expansionLimit := ← table.natural? "expansion_limit" defaults.expansionLimit
    maxDepth := ← table.natural? "max_depth" defaults.maxDepth
    parallel := ← table.flag? "parallel" defaults.parallel
    strict := ← table.flag? "strict" defaults.strict }

def ofTomlText? (text : String) : Option Options := do ofTable? (← Toml.Table.ofText? text)

end Options

end Phrasebook
