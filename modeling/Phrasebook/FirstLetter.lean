import Phrasebook.Example
import Phrasebook.Unicode.Blank
import Phrasebook.Unicode.LetterCase

/-! The case of the first letter of a text, that is of its first character that is no blank. A change
of case never changes the number of characters, so mentions stay where they are. -/

namespace Phrasebook

namespace FirstLetter

/-- Replaces the first character that is no blank by its counterpart, if it has one. -/
def replace (counterpart : Char → Option Char) : List Char → List Char
  | [] => []
  | c :: cs =>
    if Unicode.isBlank c then c :: replace counterpart cs else (counterpart c).getD c :: cs

def counterpart (upper : Bool) : Char → Option Char :=
  if upper then Unicode.toUpper? else Unicode.toLower?

/-- Puts the first letter of a text into a case. -/
def setCase (upper : Bool) (text : String) : String :=
  String.ofList (replace (counterpart upper) text.toList)

/-- The forms of a text with its first letter in either case, upper case first. -/
def variants (text : String) : List String :=
  let upper := setCase true text
  let lower := setCase false text
  if upper = lower then [upper] else [upper, lower]

end FirstLetter

namespace Example

def setCase (upper : Bool) (e : Example) : Example :=
  { e with text := FirstLetter.setCase upper e.text }

/-- The example as it is, or with its first letter in either case. -/
def caseVariants (varyCase : Bool) (e : Example) : List Example :=
  if varyCase then (FirstLetter.variants e.text).map fun text => { e with text } else [e]

end Example

end Phrasebook
