import Phrasebook.Digits

/-! How large a number in a JSON text is taken to be. Its leading digits are kept as far as they fit in
64 bits, and the others only count as powers of ten. The digits that are kept and the power of ten are
each rounded to a floating-point number of 64 bits, and so is their product. Close to the limit of
these numbers it therefore depends on the spelling of a number whether it can be read. -/

namespace Phrasebook.Json

/-- The digits that are kept of a number, and the power of ten by which they are multiplied. -/
structure Magnitude where
  kept : Nat
  exponent : Int
deriving DecidableEq, Repr

namespace Magnitude

/-- Takes the digits before the point. From the first digit that does not fit, none is kept. -/
def takeWhole (kept : Nat) : List Char → Magnitude
  | [] => ⟨kept, 0⟩
  | digit :: rest =>
    let more := Digits.push kept digit
    if more < UInt64.size then takeWhole more rest else ⟨kept, (digit :: rest).length⟩

/-- Takes the digits behind the point, up to the first that does not fit. -/
def takeFraction (magnitude : Magnitude) : List Char → Magnitude
  | [] => magnitude
  | digit :: rest =>
    let more := Digits.push magnitude.kept digit
    if more < UInt64.size then takeFraction ⟨more, magnitude.exponent - 1⟩ rest else magnitude

/-- The magnitude of a number with these digits before and behind its point. -/
def ofDigits (whole fraction : List Char) : Magnitude := (takeWhole 0 whole).takeFraction fraction

def scale (exponent : Int) (magnitude : Magnitude) : Magnitude :=
  { magnitude with exponent := magnitude.exponent + exponent }

/-- The nearest number with 53 binary digits and zeros behind them; of two that are as near, the one
whose last digit is 0. -/
def round (n : Nat) : Nat :=
  let spacing := Nat.pow 2 (n.log2 - 52)
  let below := n / spacing
  let rest := n % spacing
  if spacing < 2 * rest || (spacing = 2 * rest && below % 2 = 1) then (below + 1) * spacing
  else below * spacing

/-- Whether the number ends up beyond all floating-point numbers. -/
def isUnreadable (magnitude : Magnitude) : Bool :=
  Digits.exceedsDoubles round magnitude.kept magnitude.exponent

end Magnitude

end Phrasebook.Json
