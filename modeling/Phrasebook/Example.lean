import Phrasebook.Unit

/-! Examples: a text and the mentions of slots in it. Positions count characters of the text. -/

namespace Phrasebook

open Std

/-- A stretch of a text that stands for a value of a slot. -/
structure Mention where
  slotName : String
  canonicalValue : String
  start : Nat
  length : Nat
deriving DecidableEq, Repr, Hashable

namespace Mention

def stop (mention : Mention) : Nat := mention.start + mention.length

def shift (offset : Nat) (mention : Mention) : Mention :=
  { mention with start := mention.start + offset }

instance : Ord Mention :=
  ⟨compareLex (compareOn slotName)
    (compareLex (compareOn canonicalValue) (compareLex (compareOn start) (compareOn length)))⟩

end Mention

/-- One generated sentence with its mentions. -/
structure Example where
  text : String := ""
  mentions : List Mention := []
deriving DecidableEq, Repr, Hashable, Inhabited

namespace Example

def ofText (text : String) : Example := { text }

def isEmpty (e : Example) : Bool := e.text.isEmpty

def length (e : Example) : Nat := e.text.length

/-- One example behind the other; the mentions of the second move along. -/
def append (first second : Example) : Example where
  text := first.text ++ second.text
  mentions := first.mentions ++ second.mentions.map (·.shift first.length)

/-- Puts a space in front; every mention moves by one. -/
def withLeadingSpace (e : Example) : Example where
  text := " " ++ e.text
  mentions := e.mentions.map (·.shift 1)

/-- Replaces the mentions by a single one of the whole text. -/
def asMention (e : Example) (slotName canonicalValue : String) : Example where
  text := e.text
  mentions := [{ slotName, canonicalValue, start := 0, length := e.length }]

/-- The part of the text that a mention covers, if it lies inside the text. -/
def surface? (e : Example) (mention : Mention) : Option String :=
  if mention.stop ≤ e.length then
    some (String.ofList ((e.text.toList.drop mention.start).take mention.length))
  else
    none

/-- Whether every mention lies inside the text. -/
def isValid (e : Example) : Bool := e.mentions.all (·.stop ≤ e.length)

instance : Ord Example := ⟨compareLex (compareOn text) (compareOn mentions)⟩

/-- Sorts examples by text, then by mentions, and keeps one of equal ones. -/
def sortDistinct (examples : List Example) : List Example :=
  dropRepeats (examples.mergeSort fun a b => (compare a b).isLE)
where
  dropRepeats : List Example → List Example
    | a :: b :: rest => if a = b then dropRepeats (b :: rest) else a :: dropRepeats (b :: rest)
    | short => short

end Example

end Phrasebook
