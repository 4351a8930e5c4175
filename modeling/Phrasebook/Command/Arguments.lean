import Phrasebook.Command
import Phrasebook.Digits

/-! The command line: a word for the command, and flags behind it. A flag starts with two hyphens; its
value stands behind an equals sign, or is the next argument if that does not look like a flag. Arguments
are read from left to right, and the first that is not understood, or that asks for help, decides. -/

namespace Phrasebook

inductive Flag where
  | template
  | config
  | seed
  | runDirectory
  | strict
  | sequential
  | intent
deriving DecidableEq, Repr

/-- The number that a text of decimal digits, with or without a plus sign, gives as a seed. -/
def seedOfText? (text : String) : Option UInt64 :=
  let digits :=
    match text.toList with
    | '+' :: rest => rest
    | cs => cs
  if digits.isEmpty then none
  else ((Digits.number? 10 digits).filter (· < UInt64.size)).map UInt64.ofNat

namespace Flag

/-- The spelling of a flag behind its hyphens. -/
def name : Flag → String
  | template => "template"
  | config => "config"
  | seed => "seed"
  | runDirectory => "run-dir"
  | strict => "strict"
  | sequential => "sequential"
  | intent => "intent"

def takesValue : Flag → Bool
  | strict => false
  | sequential => false
  | _ => true

/-- Whether a text may be the value of a flag: a path is not empty, and a seed is a number. -/
def accepts : Flag → String → Bool
  | template, value => value ≠ ""
  | config, value => value ≠ ""
  | runDirectory, value => value ≠ ""
  | seed, value => (seedOfText? value).isSome
  | _, _ => true

end Flag

namespace Command

inductive Word where
  | generate
  | validate
  | count
deriving DecidableEq, Repr

namespace Word

def spelling : Word → String
  | generate => "generate"
  | validate => "validate"
  | count => "count"

def ofSpelling? (text : String) : Option Word :=
  [generate, validate, count].find? (·.spelling = text)

def flags : Word → List Flag
  | generate => [.template, .config, .seed, .runDirectory, .strict, .sequential]
  | validate => [.template]
  | count => [.template, .intent]

end Word

/-- Why the arguments give no command that works on a template. -/
inductive Interruption where
  | misuse
  | help
deriving DecidableEq, Repr

/-- The flags that were read, with their values; a flag without a value has an empty text. -/
abbrev Settings := List (Flag × String)

/-- Whether an argument looks like a flag. A single hyphen does not. -/
def looksLikeFlag (argument : String) : Bool := argument.startsWith "-" && argument ≠ "-"

/-- Whether an argument asks for help: by its name, or by its letter before any other. -/
def asksForHelp (argument : String) : Bool :=
  argument = "--help" || argument.startsWith "-h"

/-- Whether an argument asks for the version: by its name, or by its letter before any other. -/
def asksForVersion (argument : String) : Bool :=
  argument = "--version" || argument.startsWith "-V"

/-- The name of a flag behind its two hyphens, and the value behind an equals sign if there is one. -/
def splitFlag? (argument : String) : Option (String × Option String) :=
  match argument.toList with
  | '-' :: '-' :: cs =>
    let name := String.ofList (cs.takeWhile (· ≠ '='))
    match cs.dropWhile (· ≠ '=') with
    | [] => some (name, none)
    | _ :: value => some (name, some (String.ofList value))
  | _ => none

/-- The flag of a command that an argument gives, which was not given before, and its value if it has
one with an equals sign. -/
def Word.flag? (word : Word) (found : Settings) (argument : String) :
    Option (Flag × Option String) := do
  let (name, value) ← splitFlag? argument
  let flag ← word.flags.find? (·.name = name)
  if found.any (·.1 = flag) then none else some (flag, value)

/-- Reads the flags of a command behind those found before. Two hyphens alone end the flags, and no
argument may follow them. -/
def Word.readFlags (word : Word) (found : Settings) : List String → Except Interruption Settings
  | [] => .ok found
  | ["--"] => .ok found
  | argument :: rest =>
    if asksForHelp argument then .error .help
    else
      match word.flag? found argument with
      | none => .error .misuse
      | some (flag, some value) =>
        if flag.takesValue && flag.accepts value then word.readFlags ((flag, value) :: found) rest
        else .error .misuse
      | some (flag, none) =>
        if flag.takesValue then
          match rest with
          | [] => .error .misuse
          | value :: rest =>
            if !looksLikeFlag value && flag.accepts value then
              word.readFlags ((flag, value) :: found) rest
            else .error .misuse
        else word.readFlags ((flag, "") :: found) rest

/-- The command that settings give; each command needs a template. -/
def Word.command? (word : Word) (settings : Settings) : Option Command := do
  let template ← settings.lookup .template
  return match word with
  | .generate => .generate {
      template
      config := settings.lookup .config
      seed := (settings.lookup .seed).bind seedOfText?
      runDirectory := (settings.lookup .runDirectory).getD "runs"
      strict := (settings.lookup .strict).isSome
      sequential := (settings.lookup .sequential).isSome }
  | .validate => .validate template
  | .count => .count template (settings.lookup .intent)

/-- Whether help can be asked about the words behind the word for help. -/
def isHelpTopic : List String → Bool
  | [] => true
  | [word] => word = "help" || (Word.ofSpelling? word).isSome
  | _ => false

/-- The command that the arguments of the program give, unless they are misused. -/
def ofArguments? : List String → Option Command
  | [] => none
  | first :: rest =>
    if asksForHelp first then some .showHelp
    else if asksForVersion first then some .showVersion
    else if first = "help" then if isHelpTopic rest then some .showHelp else none
    else
      match Word.ofSpelling? first with
      | none => none
      | some word =>
        match word.readFlags [] rest with
        | .ok settings => word.command? settings
        | .error .help => some .showHelp
        | .error .misuse => none

end Command

end Phrasebook
