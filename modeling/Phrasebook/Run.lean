import Phrasebook.Generation

/-! The directory of a run, and what is written into it: its settings, a log with a line for each event,
a report, and the examples. -/

namespace Phrasebook

open Json

inductive RunFile where
  | settings
  | log
  | report
  | examples
deriving DecidableEq, Repr

def RunFile.name : RunFile → String
  | settings => "config.json"
  | log => "logs.ndjson"
  | report => "generation_report.json"
  | examples => "examples.json"

/-- A path inside a directory. -/
def joinPath (directory name : String) : String :=
  if directory.endsWith "/" then directory ++ name else directory ++ "/" ++ name

/-- A run, before anything is generated. -/
structure Run where
  name : String
  startedAt : String
  /-- The directory in which it gets its own. -/
  parent : String
  template : String
  options : Options

namespace Run

/-- The directory of a run, which is named for its time, without colons, and its name. -/
def directory (run : Run) : String :=
  joinPath run.parent
    (String.ofList (run.startedAt.toList.map fun c => if c = ':' then '-' else c)
      ++ "__run_" ++ run.name)

def path (run : Run) (file : RunFile) : String := joinPath run.directory file.name

/-- What is told of a run before it generates anything. -/
def toJson (run : Run) : Json :=
  .object [("run_id", .string run.name), ("started_at", .string run.startedAt),
    ("template", .string run.template), ("options", run.options.toJson)]

end Run

/-- What happens in a run. -/
inductive RunEvent where
  | started (run template : String)
  | reportWritten (path : String)
  | examplesWritten (bytes examples : Nat)
  | finished (milliseconds : Nat)
  | failed (error : GenerationError)

namespace RunEvent

def label : RunEvent → String
  | started _ _ => "run_started"
  | reportWritten _ => "report_written"
  | examplesWritten _ _ => "examples_written"
  | finished _ => "run_finished"
  | failed _ => "run_finished"

/-- How much an event matters. -/
def level : RunEvent → String
  | failed _ => "WARN"
  | _ => "INFO"

/-- What else is told of an event. -/
def details : RunEvent → List (String × Json)
  | started run template => [("run_id", .string run), ("template", .string template)]
  | reportWritten path => [("path", .string path)]
  | examplesWritten bytes examples => [("bytes", .number bytes), ("examples", .number examples)]
  | finished milliseconds =>
    [("status", .string "success"), ("duration_ms", .number milliseconds)]
  | failed error => [("status", .string "failed"), ("error", .string error.message)]

/-- The line of the log for an event at a time. -/
def line (time : String) (event : RunEvent) : String :=
  compact (.object [("timestamp", .string time), ("level", .string event.level),
    ("fields", .object (("event", .string event.label) :: event.details)),
    ("target", .string "phrasemill")]) ++ "\n"

end RunEvent

end Phrasebook
