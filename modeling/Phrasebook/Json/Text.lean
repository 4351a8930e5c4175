import Phrasebook.Json.Lexeme

/-! Reading a JSON text. The lexemes are taken one by one onto a stack of open arrays and objects; the
first lexeme that does not fit ends the reading, and what is open is closed with the damage. -/

namespace Phrasebook.Json

/-- An array or object whose end was not reached yet, with its entries so far, last first. -/
inductive Unclosed where
  | array (items : List Reading)
  /-- The name is that of the member whose value is being read. -/
  | object (members : List Member) (name : Option String)

namespace Unclosed

/-- Adds a value: an item, or the value of the member being read. -/
def add (value : Reading) : Unclosed → Unclosed
  | array items => array (value :: items)
  | object members name => object (⟨name, value⟩ :: members) name

/-- The number of levels of brackets that can be read. -/
def maxDepth : Nat := 127

/-- The array or object at a level of nesting, closed or left with damage. -/
def close (level : Nat) (damage : Option Damage) (unclosed : Unclosed) : Reading :=
  let whole :=
    match unclosed with
    | array items => .array items.reverse damage
    | object members _ => .object members.reverse damage
  if level ≤ maxDepth then whole else .unreadable whole

/-- The whole reading when nothing more can be read behind a value. -/
def collapse (damage : Damage) (value : Reading) : List Unclosed → Reading
  | [] => value
  | innermost :: outer =>
    collapse damage ((innermost.add value).close (outer.length + 1) (some damage)) outer

/-- The whole reading when a value is damaged. -/
def breakValue (damage : Damage) (stack : List Unclosed) : Reading :=
  collapse damage (.broken damage) stack

/-- The whole reading when there is damage behind the last entry of the innermost container. -/
def breakEntry (damage : Damage) : List Unclosed → Reading
  | [] => .broken damage
  | innermost :: outer => collapse damage (innermost.close (outer.length + 1) (some damage)) outer

end Unclosed

/-- What may come next in a text. -/
inductive Awaited where
  /-- A value, or the end of an array without items. -/
  | value (mayClose : Bool)
  /-- A comma, or the end of the innermost container. -/
  | separator
  /-- The name of a member, or the end of an object without members. -/
  | name (mayClose : Bool)
  /-- The colon behind a name. -/
  | colon
deriving DecidableEq, Repr

/-- How far a reading is. -/
inductive Progress where
  /-- Inside open containers, innermost first. -/
  | inside (stack : List Unclosed) (awaited : Awaited)
  /-- The whole value was read, or it is damaged and no more can be read of it. -/
  | finished (whole : Reading)

namespace Progress

open Unclosed

def start : Progress := inside [] (.value false)

def afterValue (value : Reading) : List Unclosed → Progress
  | [] => finished value
  | innermost :: outer => inside (innermost.add value :: outer) .separator

def afterClosing (innermost : Unclosed) (outer : List Unclosed) : Progress :=
  afterValue (innermost.close (outer.length + 1) none) outer

def takeValue (stack : List Unclosed) (mayClose : Bool) : Lexeme → Progress
  | .openBracket => inside (.array [] :: stack) (.value true)
  | .openBrace => inside (.object [] none :: stack) (.name true)
  | .quoted (some text) => afterValue (.string text) stack
  | .quoted none => afterValue (.unreadable (.string "")) stack
  | .brokenQuoted damage => finished (breakValue damage stack)
  | .plain (.broken damage) => finished (breakValue damage stack)
  | .plain value => afterValue value stack
  | .closeBracket =>
    match mayClose, stack with
    | true, innermost :: outer => afterClosing innermost outer
    | _, _ => finished (breakValue (.of .malformed) stack)
  | _ => finished (breakValue (.of .malformed) stack)

def takeSeparator : List Unclosed → Lexeme → Progress
  | .array items :: outer, .comma => inside (.array items :: outer) (.value false)
  | .object members name :: outer, .comma => inside (.object members name :: outer) (.name false)
  | .array items :: outer, .closeBracket => afterClosing (.array items) outer
  | .object members name :: outer, .closeBrace => afterClosing (.object members name) outer
  | stack, _ => finished (breakEntry (.of .malformed) stack)

/-- The whole reading when there is damage in place of the name of a member. -/
def breakName (mayClose : Bool) (damage : Damage) (stack : List Unclosed) : Reading :=
  breakEntry (if mayClose then damage else damage.behindComma) stack

def takeName (mayClose : Bool) : List Unclosed → Lexeme → Progress
  | .object members _ :: outer, .quoted name => inside (.object members name :: outer) .colon
  | innermost :: outer, .closeBrace =>
    if mayClose then afterClosing innermost outer
    else finished (breakName mayClose (.of .malformed) (innermost :: outer))
  | stack, .brokenQuoted damage => finished (breakName mayClose damage stack)
  | stack, _ => finished (breakName mayClose (.of .malformed) stack)

def takeColon (stack : List Unclosed) : Lexeme → Progress
  | .colon => inside stack (.value false)
  | _ => finished (breakValue (.of .malformed) stack)

def take (stack : List Unclosed) : Awaited → Lexeme → Progress
  | .value mayClose => takeValue stack mayClose
  | .separator => takeSeparator stack
  | .name mayClose => takeName mayClose stack
  | .colon => takeColon stack

/-- The whole reading where the text ends inside open containers. -/
def truncate (stack : List Unclosed) : Awaited → Reading
  | .value _ => breakValue (.of .truncated) stack
  | .colon => breakValue (.of .truncated) stack
  | .separator => breakEntry (.of .truncated) stack
  | .name mayClose => breakName mayClose (.of .truncated) stack

/-- Reads on to the end of the value; gives it and the lexemes behind it. -/
def run : Progress → List Lexeme → Reading × List Lexeme
  | finished whole, rest => (whole, rest)
  | inside stack awaited, [] => (truncate stack awaited, [])
  | inside stack awaited, lexeme :: rest => run (take stack awaited lexeme) rest

end Progress

/-- The first value of a text, and the lexemes behind it. -/
def readingOfText (text : String) : Reading × List Lexeme :=
  Progress.start.run (Lexeme.split text.toList)

/-- Reads the one value of a text; nothing but blanks may follow it. -/
def readText {α : Type} (read : Reading → Except Fault α) (text : String) : Except Fault α := do
  let (reading, rest) := readingOfText text
  let value ← read reading
  if rest.isEmpty then pure value else throw .malformed

end Phrasebook.Json
