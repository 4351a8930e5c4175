import Phrasebook.GenerationError
import Phrasebook.Json.Reading

/-! The commands of the program, and what can stop them. -/

namespace Phrasebook

structure GenerateRequest where
  template : String
  /-- The file with the options; without one they keep their defaults. -/
  config : Option String := none
  /-- A seed in place of that of the options. -/
  seed : Option UInt64 := none
  /-- The directory in which the run gets a directory of its own. -/
  runDirectory : String := "runs"
  /-- Too few examples are an error, whatever the options say. -/
  strict : Bool := false
  /-- Intents are generated one after another, whatever the options say. -/
  sequential : Bool := false
deriving DecidableEq, Repr

inductive Command where
  /-- Generates examples into the directory of a new run. -/
  | generate (request : GenerateRequest)
  /-- Checks a template and shows its graph of references. -/
  | validate (template : String)
  /-- Shows the number of possibilities of one intent, or of all. -/
  | count (template : String) (intent : Option String)
  | showVersion
  | showHelp
deriving DecidableEq, Repr

inductive CommandError where
  | unreadableTemplate (path : String)
  | malformedTemplate (fault : Json.Fault)
  | template (error : TemplateError)
  | unreadableConfig (path : String)
  | malformedConfig (path : String)
  | options (error : OptionsError)
  | noDirectory (path : String)
  | unwritableRecord (path : String)
  | generation (error : GenerationError)
  | unwritableExamples (path : String)
deriving DecidableEq, Repr

def CommandError.message : CommandError → String
  | unreadableTemplate path => s!"failed to read template: {path}"
  | malformedTemplate fault => s!"failed to parse template: {fault.label} error"
  | template error => s!"template error: {error.message}"
  | unreadableConfig path => s!"config error: failed to read config: {path}"
  | malformedConfig path => s!"config error: failed to parse config: {path}"
  | options error => s!"invalid configuration: {(GenerationError.invalidOptions error).message}"
  | noDirectory path => s!"registry error: cannot create run directory {path}"
  | unwritableRecord path => s!"registry error: cannot write {path}"
  | generation error => s!"generation error: {error.message}"
  | unwritableExamples path => s!"generation error: cannot write {path}"

end Phrasebook
