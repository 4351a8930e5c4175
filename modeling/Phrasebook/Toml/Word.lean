import Phrasebook.Digits
import Phrasebook.Toml

/-! Values of a configuration text that are spelled by a single word: numbers, truth values, dates and
times of day. -/

namespace Phrasebook.Toml

def isWordChar (c : Char) : Bool := c.isAlphanum || c = '+' || c = '-' || c = '_' || c = '.' || c = ':'

/-! ### Numbers -/

/-- The digits of a spelling in which single underscores may stand between two digits. -/
def digits? (base : Nat) : List Char → Option (List Char)
  | [] => none
  | [c] => if (Digits.value? base c).isSome then some [c] else none
  | c :: '_' :: rest => if (Digits.value? base c).isSome then (c :: ·) <$> digits? base rest else none
  | c :: rest => if (Digits.value? base c).isSome then (c :: ·) <$> digits? base rest else none

/-- The digits of a whole number, of which only the number 0 starts with the digit 0. -/
def wholeDigits? (cs : List Char) : Option (List Char) :=
  (digits? 10 cs).filter fun digits => digits = ['0'] || digits.head? ≠ some '0'

/-- Takes the sign off a number; tells whether it is a minus. -/
def splitSign : List Char → Bool × List Char
  | '-' :: rest => (true, rest)
  | '+' :: rest => (false, rest)
  | rest => (false, rest)

/-- A number with a sign has 64 bits. -/
def isInRange (value : Int) : Bool :=
  Int64.minValue.toInt ≤ value && value ≤ Int64.maxValue.toInt

/-- A whole number: decimal with a sign or without, or without a sign in one of three other bases. -/
def integer? (word : List Char) : Option Int :=
  Option.filter isInRange <|
    match word with
    | '0' :: 'x' :: cs => natural 16 (digits? 16 cs)
    | '0' :: 'o' :: cs => natural 8 (digits? 8 cs)
    | '0' :: 'b' :: cs => natural 2 (digits? 2 cs)
    | _ =>
      let (isNegative, cs) := splitSign word
      (natural 10 (wholeDigits? cs)).map fun value => if isNegative then -value else value
where
  natural (base : Nat) (digits : Option (List Char)) : Option Int :=
    (digits.bind (Digits.number? base)).map Int.ofNat

/-- A character of digits with underscores. -/
def isDigitPart (c : Char) : Bool := c.isDigit || c = '_'

/-- Takes the digits behind a point off a number; without a point there are none. -/
def fraction? : List Char → Option (List Char × List Char)
  | '.' :: cs => do
    let digits ← digits? 10 (cs.takeWhile isDigitPart)
    return (digits, cs.dropWhile isDigitPart)
  | cs => some ([], cs)

/-- The exponent that the rest of a number spells; without one it is 0. -/
def exponent? : List Char → Option Int
  | [] => some 0
  | c :: cs =>
    if c = 'e' || c = 'E' then do
      let (isNegative, cs) := splitSign cs
      let value := Digits.decimal (← digits? 10 cs)
      return if isNegative then -value else value
    else none

/-- Whether a word spells a floating-point number, which is not a positive one beyond all of them. -/
def isFloat (word : List Char) : Bool :=
  let (isNegative, cs) := splitSign word
  cs = ['i', 'n', 'f'] || cs = ['n', 'a', 'n'] || (finite isNegative cs).isSome
where
  finite (isNegative : Bool) (cs : List Char) : Option Unit := do
    let whole ← wholeDigits? (cs.takeWhile isDigitPart)
    let rest := cs.dropWhile isDigitPart
    let (fraction, behind) ← fraction? rest
    let exponent ← exponent? behind
    guard (rest ≠ [])
    let number := Digits.decimal (whole ++ fraction)
    guard (isNegative || !Digits.exceedsDoubles id number (exponent - fraction.length))

/-! ### Dates and times of day -/

/-- The number of two digits, if it lies in a range. -/
def twoDigits? (least greatest : Nat) (a b : Char) : Option Nat :=
  (Digits.number? 10 [a, b]).filter fun value => least ≤ value && value ≤ greatest

def daysInMonth (year month : Nat) : Nat :=
  if month = 2 then
    if year % 4 = 0 ∧ (year % 100 ≠ 0 ∨ year % 400 = 0) then 29 else 28
  else if month = 4 ∨ month = 6 ∨ month = 9 ∨ month = 11 then 30
  else 31

/-- The text behind the date at its start. -/
def afterDate? : List Char → Option (List Char)
  | y₁ :: y₂ :: y₃ :: y₄ :: '-' :: m₁ :: m₂ :: '-' :: d₁ :: d₂ :: rest => do
    let year ← Digits.number? 10 [y₁, y₂, y₃, y₄]
    let month ← twoDigits? 1 12 m₁ m₂
    let _ ← twoDigits? 1 (daysInMonth year month) d₁ d₂
    return rest
  | _ => none

/-- The text behind the time of day at its start. The 60th second of a minute may follow the 59th. -/
def afterTime? : List Char → Option (List Char)
  | h₁ :: h₂ :: ':' :: m₁ :: m₂ :: ':' :: s₁ :: s₂ :: rest => do
    let _ ← twoDigits? 0 23 h₁ h₂
    let _ ← twoDigits? 0 59 m₁ m₂
    let _ ← twoDigits? 0 60 s₁ s₂
    match rest with
    | '.' :: digits =>
      if (digits.takeWhile Char.isDigit).isEmpty then none
      else some (digits.dropWhile Char.isDigit)
    | _ => some rest
  | _ => none

/-- Whether a text is empty or the distance of a local time from the universal time. -/
def isOffset : List Char → Bool
  | [] => true
  | ['Z'] => true
  | ['z'] => true
  | [sign, h₁, h₂, ':', m₁, m₂] =>
    (sign = '+' || sign = '-') && (twoDigits? 0 23 h₁ h₂).isSome && (twoDigits? 0 59 m₁ m₂).isSome
  | _ => false

/-- Whether a word spells a date, alone or with a time of day behind it. -/
def isDate (word : List Char) : Bool :=
  match afterDate? word with
  | some [] => true
  | some (c :: rest) => (c = 'T' || c = 't' || c = ' ') && (afterTime? rest).any isOffset
  | none => false

def isDateTime (word : List Char) : Bool := isDate word || afterTime? word = some []

/-! ### Words -/

def wordValue? (word : List Char) : Option Toml :=
  if word = ['t', 'r', 'u', 'e'] then some (.boolean true)
  else if word = ['f', 'a', 'l', 's', 'e'] then some (.boolean false)
  else if isDateTime word then some (.dateTime (String.ofList word))
  else if isFloat word then some (.float (String.ofList word))
  else (integer? word).map .integer

/-- The word at the start of a text, and the text behind it. A blank may stand between a date and the
time of day behind it. -/
def splitWord (cs : List Char) : List Char × List Char :=
  let word := cs.takeWhile isWordChar
  match afterDate? word, cs.dropWhile isWordChar with
  | some [], ' ' :: rest =>
    let time := rest.takeWhile isWordChar
    if time.isEmpty then (word, ' ' :: rest)
    else (word ++ ' ' :: time, rest.dropWhile isWordChar)
  | _, rest => (word, rest)

end Phrasebook.Toml
