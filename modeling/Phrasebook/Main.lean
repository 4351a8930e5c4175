import Phrasebook.Command.Arguments
import Phrasebook.Command.Execution
import Std.Time

/-! The program: it reads its arguments, does what they ask for on the real computer, and shows the
text of the command or the error that stopped it. -/

namespace Phrasebook

def succeeds (action : IO Unit) : IO Bool := do
  try
    action
    return true
  catch _ => return false

/-- The groups of hexadecimal digits of a random name. -/
def randomName : IO String := do
  let bytes ← IO.getRandomBytes 16
  let digits := bytes.toList.flatMap fun byte =>
    [Json.hexDigit (byte.toNat / 16), Json.hexDigit (byte.toNat % 16)]
  let group (start size : Nat) : String := String.ofList ((digits.drop start).take size)
  return "-".intercalate [group 0 8, group 8 4, group 12 4, group 16 4, group 20 12]

instance : Host IO where
  readText path := do
    try
      return some (← IO.FS.readFile path)
    catch _ => return none
  makeDirectory path := succeeds (IO.FS.createDirAll path)
  writeText path text := succeeds (IO.FS.writeFile path text)
  appendText path text := succeeds do
    let file ← IO.FS.Handle.mk path .append
    file.putStr text
  newName := randomName
  time := do
    let now := Std.Time.DateTime.ofTimestampWithZone (← Std.Time.Timestamp.now) .UTC
    return now.toPlainDateTime.format "uuuu-MM-dd'T'HH:mm:ss'Z'"
  milliseconds := IO.monoMsNow

end Phrasebook

open Phrasebook in
/-- Ends with 0 if the command succeeds, with 1 if it fails, and with 2 if the arguments are misused. -/
def main (arguments : List String) : IO UInt32 := do
  match Command.ofArguments? arguments with
  | none =>
    IO.eprint Command.helpText
    return 2
  | some command =>
    match ← (command.execute : Execution IO String).run with
    | .ok text =>
      IO.print text
      return 0
    | .error error =>
      IO.eprintln s!"Error: {error.message}"
      return 1
