/-! Numbers spelled by digits, and the decimal numbers that lie beyond all floating-point numbers. -/

namespace Phrasebook.Digits

/-- The value of a hexadecimal digit of either case. -/
def hexValue? (c : Char) : Option Nat :=
  if '0' ≤ c ∧ c ≤ '9' then some (c.toNat - '0'.toNat)
  else if 'a' ≤ c ∧ c ≤ 'f' then some (c.toNat - 'a'.toNat + 10)
  else if 'A' ≤ c ∧ c ≤ 'F' then some (c.toNat - 'A'.toNat + 10)
  else none

/-- The value of a digit of a base up to sixteen. -/
def value? (base : Nat) (c : Char) : Option Nat := (hexValue? c).filter (· < base)

/-- The number spelled by digits of a base, if they are such digits. -/
def number? (base : Nat) (digits : List Char) : Option Nat :=
  digits.foldlM (fun value digit => do return value * base + (← value? base digit)) 0

/-- Adds a decimal digit at the end of a number. -/
def push (value : Nat) (digit : Char) : Nat := value * 10 + (digit.toNat - '0'.toNat)

def decimal (digits : List Char) : Nat := digits.foldl push 0

/-- The middle between the largest floating-point number of 64 bits and 2^1024; what is not below it
is rounded to infinity. -/
def doubleLimit : Nat := Nat.pow 2 1024 - Nat.pow 2 970

/-- Whether a number times a power of ten lies beyond all floating-point numbers of 64 bits. A reader
that rounds both before it multiplies them gives its `round`; one that is exact gives `id`. -/
def exceedsDoubles (round : Nat → Nat) (number : Nat) (exponent : Int) : Bool :=
  let size : Int := (Nat.toDigits 10 number).length + exponent
  if number = 0 || size < 300 then false
  else if 310 < size then true
  else
    doubleLimit * round (Nat.pow 10 (-exponent).toNat) ≤
      round number * round (Nat.pow 10 exponent.toNat)

end Phrasebook.Digits
