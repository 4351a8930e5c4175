import Phrasebook.Json

/-! What was read of a JSON text. A text need not be JSON to the end, so a reading may stop short: it
keeps all that came before the damage, and the damage where it stands. Consumers walk a reading from
left to right and answer with the first fault that they meet, be it damage or a value of the wrong
shape. Some texts may be passed over although they cannot be read as values; they are kept apart. -/

namespace Phrasebook.Json

/-- Why a text does not give the value that is wanted. -/
inductive Fault where
  /-- The text is JSON, but of another shape. -/
  | mismatch
  /-- The text is not JSON. -/
  | malformed
  /-- The text ends before the value does. -/
  | truncated
deriving DecidableEq, Repr

def Fault.label : Fault → String
  | mismatch => "data"
  | malformed => "syntax"
  | truncated => "eof"

/-- Where a text stops being JSON. How far it is looked at depends on who looks, so each may meet
another fault. -/
structure Damage where
  whenRead : Fault
  whenPassed : Fault
  /-- Met by those who take a string or an object, and else stop at the first character. -/
  atFirstSight : Fault := whenRead
  /-- Met by those who take no more members, and stop at the comma before the damage. -/
  asMember : Fault := whenRead
deriving DecidableEq, Repr

namespace Damage

/-- Damage that is the same for all. -/
def of (fault : Fault) : Damage := { whenRead := fault, whenPassed := fault }

/-- Damage of a word or a number, whose first character is that of no string and no object. -/
def ofPlain (damage : Damage) : Damage := { damage with atFirstSight := .malformed }

def behindComma (damage : Damage) : Damage := { damage with asMember := .malformed }

/-- Meets the damage behind the last entry of an array or object. -/
def meet : Option Damage → Except Fault Unit
  | none => pure ()
  | some damage => throw damage.whenRead

/-- Meets the damage behind the last entry of an array or object that is passed over. -/
def meetPassing : Option Damage → Except Fault Unit
  | none => pure ()
  | some damage => throw damage.whenPassed

end Damage

mutual

/-- A JSON text as far as it could be read. -/
inductive Reading where
  | null
  | bool (value : Bool)
  /-- A number written with digits only, below 2^64. -/
  | natural (value : UInt64)
  /-- Any other number, as it is written. -/
  | otherNumber (literal : String)
  | string (text : String)
  /-- Items, and the damage if the closing bracket was not reached. -/
  | array (items : List Reading) (damage : Option Damage)
  /-- Members, and the damage if the closing brace was not reached. -/
  | object (members : List Member) (damage : Option Damage)
  /-- A text that may be passed over but not read: a string with half a surrogate pair, a number
  beyond all floating-point numbers, or brackets nested too deeply. -/
  | unreadable (inner : Reading)
  /-- No value begins here, or the one that does is not finished. -/
  | broken (damage : Damage)

/-- A member of an object; a name with half a surrogate pair can only be passed over. -/
structure Member where
  name : Option String
  value : Reading

end

deriving instance Repr, Inhabited for Reading, Member

namespace Reading

mutual

/-- Passes over a value: only damage in it is met. -/
def pass : Reading → Except Fault Unit
  | array items damage => do
    passItems items
    Damage.meetPassing damage
  | object members damage => do
    passMembers members
    Damage.meetPassing damage
  | unreadable inner => inner.pass
  | broken damage => throw damage.whenPassed
  | _ => pure ()

def passItems : List Reading → Except Fault Unit
  | [] => pure ()
  | item :: rest => do
    item.pass
    passItems rest

def passMembers : List Member → Except Fault Unit
  | [] => pure ()
  | { value, .. } :: rest => do
    value.pass
    passMembers rest

end

mutual

/-- Reads a value of any shape: damage is met, and texts that cannot be read. -/
def hold : Reading → Except Fault Unit
  | array items damage => do
    holdItems items
    Damage.meet damage
  | object members damage => do
    holdMembers members
    Damage.meet damage
  | unreadable _ => throw .malformed
  | broken damage => throw damage.whenRead
  | _ => pure ()

def holdItems : List Reading → Except Fault Unit
  | [] => pure ()
  | item :: rest => do
    item.hold
    holdItems rest

def holdMembers : List Member → Except Fault Unit
  | [] => pure ()
  | { name, value } :: rest => do
    if name.isNone then
      throw .malformed
    value.hold
    holdMembers rest

end

/-- The fault of a value that has the wrong shape; damage in a plain value is met first. -/
def misfit : Reading → Fault
  | broken damage => damage.whenRead
  | unreadable (array _ _) => .mismatch
  | unreadable (object _ _) => .mismatch
  | unreadable _ => .malformed
  | _ => .mismatch

def readBool : Reading → Except Fault Bool
  | bool value => pure value
  | other => throw other.misfit

def readString : Reading → Except Fault String
  | string text => pure text
  | other => throw other.misfit

def readUInt64 : Reading → Except Fault UInt64
  | natural value => pure value
  | other => throw other.misfit

/-- Reads a natural number below 2^64 without its bound. -/
def readNat (reading : Reading) : Except Fault Nat := do
  return (← reading.readUInt64).toNat

def readUInt8 (reading : Reading) : Except Fault UInt8 := do
  let value ← reading.readUInt64
  if value < 256 then pure value.toUInt8 else throw .mismatch

/-- Reads a value that may be null, which stands for none. -/
def readOption {α : Type} (read : Reading → Except Fault α) (reading : Reading) :
    Except Fault (Option α) :=
  match reading with
  | null => pure none
  | other => some <$> read other

/-- A part of a reading, smaller than the whole. -/
abbrev Part (whole : Nat) := { reading : Reading // sizeOf reading < whole }

theorem sizeOf_item_lt {items : List Reading} {damage : Option Damage} {item : Reading}
    (h : item ∈ items) : sizeOf item < sizeOf (array items damage) := by
  have := List.sizeOf_lt_of_mem h
  simp
  omega

theorem sizeOf_member_value_lt {members : List Member} {damage : Option Damage} {member : Member}
    (h : member ∈ members) : sizeOf member.value < sizeOf (object members damage) := by
  have := List.sizeOf_lt_of_mem h
  have : sizeOf member.value < sizeOf member := by
    cases member
    simp only [Member.mk.sizeOf_spec]
    omega
  simp
  omega

/-- Reads the items of an array in order. -/
def readList {α : Type} (reading : Reading) (read : Part (sizeOf reading) → Except Fault α) :
    Except Fault (List α) :=
  match reading with
  | array items damage => do
    let values ← (items.attachWith _ fun _ => sizeOf_item_lt).mapM read
    Damage.meet damage
    return values
  | unreadable (array _ _) => throw .malformed
  | other => throw other.misfit

/-- Reads the members of an object of any names in order; of two members with one name the later
one counts in what is made of the list. -/
def readEntries {α : Type} (reading : Reading) (read : Part (sizeOf reading) → Except Fault α) :
    Except Fault (List (String × α)) :=
  match reading with
  | object members damage => do
    let entries ← (members.attachWith _ fun _ => sizeOf_member_value_lt).mapM fun member =>
      match member.val.name with
      | none => throw .malformed
      | some name => do return (name, ← read ⟨member.val.value, member.property⟩)
    Damage.meet damage
    return entries
  | unreadable (object _ _) => throw .malformed
  | other => throw other.misfit

end Reading

end Phrasebook.Json
