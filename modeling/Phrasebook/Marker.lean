import Phrasebook.Example
import Phrasebook.Unicode.Alphabetic
import Phrasebook.Unicode.Mark
import Phrasebook.Unicode.Number
import Phrasebook.Unicode.Recent

/-! Argument markers: `$name` in a text stands for the value of an argument. A marker whose name ends
like an identifier ends only where a word does, so that `$x` is not found in `$xy`. Markers are found
from the left and do not overlap; putting values in their place moves the mentions behind them. -/

namespace Phrasebook

/-- Characters of words: alphabetic characters, marks and decimal digits that are not too recent,
connectors such as the low line, and the two joiners. -/
def isWordChar (c : Char) : Bool :=
  ((Unicode.isAlphabetic c || Unicode.isMark c || Unicode.isDecimal c) && !Unicode.isRecent c) ||
    ['_', '\u203f', '\u2040', '\u2054', '\ufe33', '\ufe34', '\ufe4d', '\ufe4e', '\ufe4f', '\uff3f',
      '\u200c', '\u200d'].contains c

/-- Characters that an identifier may end with. -/
def endsIdentifier (c : Char) : Bool :=
  Unicode.isAlphabetic c || Unicode.isNumber c || c = '_'

/-- The marker of an argument. -/
structure Marker where
  name : String
deriving DecidableEq, Repr

namespace Marker

/-- A part of a text that was searched for markers. -/
inductive Piece where
  | plain (c : Char)
  | marker
deriving DecidableEq, Repr

def literal (marker : Marker) : List Char := '$' :: marker.name.toList

def length (marker : Marker) : Nat := marker.literal.length

/-- Whether the marker can end before `rest`: behind a name that ends like an identifier there has
to be a boundary, with a word character on exactly one side of it. -/
def endsBefore (marker : Marker) (rest : List Char) : Bool :=
  match marker.name.toList.getLast? with
  | none => true
  | some last => !endsIdentifier last || isWordChar last != rest.head?.any isWordChar

def startsAt (marker : Marker) (cs : List Char) : Bool :=
  marker.literal.isPrefixOf cs && marker.endsBefore (cs.drop marker.length)

def split (marker : Marker) : List Char → List Piece
  | [] => []
  | c :: cs =>
    if marker.startsAt (c :: cs) then .marker :: marker.split ((c :: cs).drop marker.length)
    else .plain c :: marker.split cs
termination_by cs => cs.length
decreasing_by
  · simp only [Marker.length, literal, List.length_drop, List.length_cons]
    omega
  · simp

/-- The text of pieces with a value in place of each marker. -/
def fill (value : List Char) (pieces : List Piece) : List Char :=
  pieces.flatMap fun
    | .plain c => [c]
    | .marker => value

/-- A text with a value in place of each marker. -/
def replaceIn (marker : Marker) (value text : String) : String :=
  String.ofList (fill value.toList (marker.split text.toList))

/-- The positions just behind the markers, counted in the text before it is filled. -/
def stops (marker : Marker) (pieces : List Piece) : List Nat :=
  go 0 pieces
where
  go (position : Nat) : List Piece → List Nat
    | [] => []
    | .plain _ :: rest => go (position + 1) rest
    | .marker :: rest => (position + marker.length) :: go (position + marker.length) rest

/-- The positions at which the marker stands in a text. -/
def starts (marker : Marker) (text : String) : List Nat :=
  (marker.stops (marker.split text.toList)).map (· - marker.length)

/-- Where a position of a text lies once each marker that ends before it has made way for a value
with the given number of characters. Positions are taken as signed numbers of 64 bits, so that one
from 2^63 on, which is in no text, lies before the start; it is moved like any other, but not further
to the left than the start. -/
def remap (marker : Marker) (stops : List Nat) (valueLength position : Nat) : Nat :=
  let before := stops.countP (· ≤ position)
  ((Int64.ofNat position).toInt + before * valueLength - before * marker.length).toNat

/-- Moves a mention along with the text, and fills its canonical value. -/
def moveMention (marker : Marker) (stops : List Nat) (value : String) (mention : Mention) :
    Mention :=
  let start := marker.remap stops value.length mention.start
  let stop := max start (marker.remap stops value.length mention.stop)
  { mention with
    start
    length := stop - start
    canonicalValue := marker.replaceIn value mention.canonicalValue }

/-- Puts a value in place of each marker in an example; without any marker in its text the example
stays as it is. -/
def substitute (marker : Marker) (value : String) (e : Example) : Example :=
  let pieces := marker.split e.text.toList
  let stops := marker.stops pieces
  if stops.isEmpty then e
  else {
    text := String.ofList (fill value.toList pieces)
    mentions := e.mentions.map (marker.moveMention stops value) }

end Marker

end Phrasebook
