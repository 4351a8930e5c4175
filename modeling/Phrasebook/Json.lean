/-! JSON values as this library writes them, and their two written forms: compact, without any
blanks, and pretty, one entry a line with an indent of two spaces for each level. -/

namespace Phrasebook

/-- A JSON value to be written; its numbers are whole numbers. -/
inductive Json where
  | null
  | bool (value : Bool)
  | number (value : Int)
  | string (text : String)
  | array (items : List Json)
  | object (members : List (String × Json))
deriving Inhabited

namespace Json

/-- A list of values as an array. -/
def ofList {α : Type} (toJson : α → Json) (items : List α) : Json := array (items.map toJson)

/-- A missing value is null. -/
def ofOption {α : Type} (toJson : α → Json) : Option α → Json
  | none => null
  | some value => toJson value

/-- A member that is left out when its value is missing. -/
def memberIfSome {α : Type} (name : String) (toJson : α → Json) :
    Option α → List (String × Json)
  | none => []
  | some value => [(name, toJson value)]

def hexDigit (n : Nat) : Char :=
  if n < 10 then Char.ofNat ('0'.toNat + n) else Char.ofNat ('a'.toNat + (n - 10))

/-- Quotes, backslashes and control characters are escaped, all other characters stand for
themselves. -/
def escape (c : Char) : List Char :=
  if c = '"' then ['\\', '"']
  else if c = '\\' then ['\\', '\\']
  else if c = '\x08' then ['\\', 'b']
  else if c = '\x0c' then ['\\', 'f']
  else if c = '\n' then ['\\', 'n']
  else if c = '\x0d' then ['\\', 'r']
  else if c = '\t' then ['\\', 't']
  else if c.toNat < 0x20 then
    ['\\', 'u', '0', '0', hexDigit (c.toNat / 16), hexDigit (c.toNat % 16)]
  else [c]

def quote (text : String) : String :=
  "\"" ++ String.ofList (text.toList.flatMap escape) ++ "\""

mutual

/-- Writes a value behind a text, without blanks. -/
def writeCompact (out : String) : Json → String
  | null => out ++ "null"
  | bool value => out ++ (if value then "true" else "false")
  | number value => out ++ toString value
  | string text => out ++ quote text
  | array items => writeItems (out ++ "[") items ++ "]"
  | object members => writeMembers (out ++ "\x7b") members ++ "\x7d"

def writeItems (out : String) : List Json → String
  | [] => out
  | [item] => item.writeCompact out
  | item :: rest => writeItems (item.writeCompact out ++ ",") rest

def writeMembers (out : String) : List (String × Json) → String
  | [] => out
  | [(name, value)] => value.writeCompact (out ++ quote name ++ ":")
  | (name, value) :: rest =>
    writeMembers (value.writeCompact (out ++ quote name ++ ":") ++ ",") rest

end

/-- The written form without blanks. -/
def compact (value : Json) : String := value.writeCompact ""

def newline (level : Nat) : String := "\n" ++ String.ofList (List.replicate (2 * level) ' ')

mutual

/-- Writes a value behind a text, one entry a line, the value standing at a level of nesting. Empty
arrays and objects stay on one line. -/
def writePretty (level : Nat) (out : String) : Json → String
  | null => out ++ "null"
  | bool value => out ++ (if value then "true" else "false")
  | number value => out ++ toString value
  | string text => out ++ quote text
  | array [] => out ++ "[]"
  | array (item :: rest) =>
    writeMoreItems (level + 1) (item.writePretty (level + 1) (out ++ "[" ++ newline (level + 1))) rest
      ++ newline level ++ "]"
  | object [] => out ++ "\x7b\x7d"
  | object ((name, value) :: rest) =>
    writeMoreMembers (level + 1)
        (value.writePretty (level + 1) (out ++ "\x7b" ++ newline (level + 1) ++ quote name ++ ": "))
        rest
      ++ newline level ++ "\x7d"

def writeMoreItems (level : Nat) (out : String) : List Json → String
  | [] => out
  | item :: rest => writeMoreItems level (item.writePretty level (out ++ "," ++ newline level)) rest

def writeMoreMembers (level : Nat) (out : String) : List (String × Json) → String
  | [] => out
  | (name, value) :: rest =>
    writeMoreMembers level
      (value.writePretty level (out ++ "," ++ newline level ++ quote name ++ ": ")) rest

end

/-- The written form with one entry a line. -/
def pretty (value : Json) : String := value.writePretty 0 ""

end Json

end Phrasebook
