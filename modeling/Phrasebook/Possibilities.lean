import Phrasebook.Json.Record

/-! Numbers of possibilities: a number below 2^64, or unbounded. Arithmetic is that of the natural
numbers with all from 2^64 on taken as unbounded, and nothing times unbounded is nothing. -/

namespace Phrasebook

/-- How many examples there may be. -/
inductive Possibilities where
  | finite (count : UInt64)
  | unbounded
deriving DecidableEq, Repr

namespace Possibilities

/-- A natural number, unless it is too large to be told. -/
def ofNat (n : Nat) : Possibilities :=
  if n < UInt64.size then finite (UInt64.ofNat n) else unbounded

def finite? : Possibilities → Option UInt64
  | finite count => some count
  | unbounded => none

def isUnbounded : Possibilities → Bool
  | finite _ => false
  | unbounded => true

protected def add : Possibilities → Possibilities → Possibilities
  | finite a, finite b => ofNat (a.toNat + b.toNat)
  | _, _ => unbounded

protected def mul : Possibilities → Possibilities → Possibilities
  | finite a, finite b => ofNat (a.toNat * b.toNat)
  | finite a, unbounded => if a = 0 then finite 0 else unbounded
  | unbounded, finite b => if b = 0 then finite 0 else unbounded
  | unbounded, unbounded => unbounded

instance : Add Possibilities := ⟨Possibilities.add⟩

instance : Mul Possibilities := ⟨Possibilities.mul⟩

instance {n : Nat} : OfNat Possibilities n := ⟨ofNat n⟩

/-- Each number comes before all larger ones, and unbounded comes last. -/
protected def compare : Possibilities → Possibilities → Ordering
  | finite a, finite b => compare a b
  | finite _, unbounded => .lt
  | unbounded, finite _ => .gt
  | unbounded, unbounded => .eq

instance : Ord Possibilities := ⟨Possibilities.compare⟩

def sum (values : List Possibilities) : Possibilities := values.foldl (· + ·) 0

def product (values : List Possibilities) : Possibilities := values.foldl (· * ·) 1

/-- The greatest of some values. -/
def max? : List Possibilities → Option Possibilities
  | [] => none
  | value :: rest => some (rest.foldl (fun a b => if (compare a b).isLE then b else a) value)

/-- Whether there are more possibilities than a limit allows. -/
def exceeds (limit : Nat) : Possibilities → Bool
  | finite count => count.toNat > limit
  | unbounded => true

/-- The whole part of a fraction of the possibilities; a divisor of 0 counts as 1. -/
def dividedBy (divisor : UInt64) : Possibilities → Possibilities
  | finite count => finite (count / max divisor 1)
  | unbounded => unbounded

/-- Twice as many, if each of them comes in two forms. -/
def doubledIf (condition : Bool) (value : Possibilities) : Possibilities :=
  if condition then value * 2 else value

def describe : Possibilities → String
  | finite count => toString count
  | unbounded => "unbounded"

open Json

/-- Reads a number of possibilities: an object with `finite` and a number, or the word
`unbounded`, which may also be an object with null. -/
def read : Reading → Except Fault Possibilities
  | .string "unbounded" => pure unbounded
  | .object [{ name := some "finite", value }] none => finite <$> value.readUInt64
  | .object [{ name := some "unbounded", value := .null }] none => pure unbounded
  | _ => throw .mismatch

def toJson : Possibilities → Json
  | finite count => .object [("finite", .number count.toNat)]
  | unbounded => .string "unbounded"

end Possibilities

end Phrasebook
