import Phrasebook.Command
import Phrasebook.Host
import Phrasebook.Options.Toml
import Phrasebook.Run

/-! What each command does: it reads files, works on what they say, and gives the text to show. The
first step that fails ends the command. -/

namespace Phrasebook

/-- A command at work on a host. -/
abbrev Execution (m : Type → Type) := ExceptT CommandError m

namespace Execution

variable {m : Type → Type} [Monad m] [Host m] {α : Type}

/-- The value that a host gives; without one the command stops. -/
def require (error : CommandError) (action : m (Option α)) : Execution m α := do
  match ← action with
  | some value => return value
  | none => throw error

/-- Stops the command unless a host did as told. -/
def ensure (error : CommandError) (action : m Bool) : Execution m Unit := do
  unless ← action do throw error

/-- Stops the command with the cause of an error. -/
def orStop {ε : Type} (cause : ε → CommandError) (result : Except ε α) : Execution m α :=
  ExceptT.mk (pure (result.mapError cause))

def registryOfFile (path : String) : Execution m Registry := do
  let text ← require (.unreadableTemplate path) (Host.readText path)
  let template ← orStop .malformedTemplate (Template.ofText text)
  orStop .template (Registry.ofTemplate template)

def optionsOfFile (path : String) : Execution m Options := do
  let text ← require (.unreadableConfig path) (Host.readText path)
  orStop (fun () => .malformedConfig path) ((Options.ofTomlText? text).elim (.error ()) .ok)

/-! ### Templates -/

/-- Checks a template; gives the number of its units of each kind and its graph of references. -/
def validate (path : String) : Execution m String := do
  let registry ← registryOfFile path
  orStop .template registry.check
  let counts := " ".intercalate
    [s!"aliases={registry.countOf .shared}", s!"slots={registry.countOf .slot}",
      s!"intents={registry.countOf .intent}"]
  return counts ++ "\n" ++ (ReferenceGraph.ofRegistry registry).summary.toJson.pretty ++ "\n"

/-- Counts the possibilities of intents; gives a line for each of them. -/
def count (path : String) (intent : Option String) : Execution m String := do
  let registry ← registryOfFile path
  orStop .template registry.check
  let intents ← match intent with
    | none => pure registry.intents
    | some name => List.singleton <$> orStop .template (registry.resolve ⟨.intent, name⟩)
  let counts := intents.mapM fun definition => do
    return definition.key.name ++ "\t" ++ (← registry.countUnit definition none).describe ++ "\n"
  return String.join (← orStop .generation (counts.run ∅).1)

/-! ### Runs -/

/-- The options of a run: those of its file, as the command line changes them. -/
def optionsFor (request : GenerateRequest) : Execution m Options := do
  let options ← match request.config with
    | none => pure {}
    | some path => optionsOfFile path
  let options := {
    options with
    seed := request.seed.getD options.seed
    strict := options.strict || request.strict
    parallel := options.parallel && !request.sequential }
  orStop .options options.check
  return options

/-- Makes the directory of a new run, with the settings of the run and an empty log. -/
def start (request : GenerateRequest) (options : Options) : Execution m Run := do
  let name ← Host.newName (m := m)
  let startedAt ← Host.time (m := m)
  let run : Run :=
    { name, startedAt, parent := request.runDirectory, template := request.template, options }
  ensure (.noDirectory run.directory) (Host.makeDirectory run.directory)
  write run .settings run.toJson.pretty
  write run .log ""
  return run
where
  write (run : Run) (file : RunFile) (text : String) : Execution m Unit :=
    ensure (.unwritableRecord (run.path file)) (Host.writeText (run.path file) text)

def record (run : Run) (event : RunEvent) : Execution m Unit := do
  let time ← Host.time (m := m)
  ensure (.unwritableRecord (run.path .log)) (Host.appendText (run.path .log) (event.line time))

/-- Generates examples into the directory of a new run, which is given. -/
def generate (request : GenerateRequest) : Execution m String := do
  let options ← optionsFor request
  let registry ← registryOfFile request.template
  let run ← start request options
  record run (.started run.name run.template)
  let began ← Host.milliseconds (m := m)
  match registry.generate options with
  | .error error =>
    record run (.failed error)
    throw (.generation error)
  | .ok generation =>
    let generated ← Host.milliseconds (m := m)
    let report := (generation.report.toJson (some (generated - began))).pretty
    ensure (.unwritableRecord (run.path .report)) (Host.writeText (run.path .report) report)
    record run (.reportWritten (run.path .report))
    let document := generation.documentText true
    ensure (.unwritableExamples (run.path .examples))
      (Host.writeText (run.path .examples) document)
    record run (.examplesWritten document.utf8ByteSize generation.report.examplesTotal)
    let ended ← Host.milliseconds (m := m)
    record run (.finished (ended - began))
    return run.directory ++ "\n"

end Execution

namespace Command

def versionText : String := "phrasemill 0.1.0\n"

def helpText : String :=
  String.join [
    "Template-driven example generator\n\n",
    "Usage: phrasemill <COMMAND>\n\n",
    "Commands:\n",
    "  generate --template <PATH> [--config <PATH>] [--seed <SEED>] [--run-dir <RUN_DIR>]\n",
    "           [--strict] [--sequential]\n",
    "           Generate examples into a new run directory\n",
    "  validate --template <PATH>\n",
    "           Check a template and print its reference graph\n",
    "  count    --template <PATH> [--intent <NAME>]\n",
    "           Print the possibility count of intents\n",
    "  help     Print this message\n\n",
    "Options:\n",
    "  -h, --help     Print help\n",
    "  -V, --version  Print version\n"]

/-- Does what a command asks for; gives the text to show. -/
def execute {m : Type → Type} [Monad m] [Host m] : Command → Execution m String
  | generate request => Execution.generate request
  | validate template => Execution.validate template
  | count template intent => Execution.count template intent
  | showVersion => pure versionText
  | showHelp => pure helpText

end Command

end Phrasebook
