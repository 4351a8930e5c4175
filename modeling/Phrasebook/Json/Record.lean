import Phrasebook.Json.Reading

/-! Records in JSON: objects with known members, or arrays of the same values in a fixed order. A record
names its fields once, in that order, and says for each how its value changes the record. -/

namespace Phrasebook.Json

/-- How a reading is given to those who read it. -/
inductive Origin where
  /-- Straight from a text, one piece at a time. -/
  | text
  /-- As a value that is known whole. -/
  | value
  /-- Inside a tagged object, which is held whole until its tag is known. -/
  | held
deriving DecidableEq, Repr

/-- A field of records of a type, read from a part of a whole. -/
structure Field (Record : Type) (whole : Nat) where
  name : String
  isRequired : Bool
  /-- The change that a value of the field makes to the record. -/
  read : Reading.Part whole → Except Fault (Record → Record)

namespace Field

variable {Record : Type} {whole : Nat} {α : Type}

def required (name : String) (read : Reading → Except Fault α) (set : α → Record → Record) :
    Field Record whole :=
  ⟨name, true, fun part => set <$> read part.val⟩

def optional (name : String) (read : Reading → Except Fault α) (set : α → Record → Record) :
    Field Record whole :=
  ⟨name, false, fun part => set <$> read part.val⟩

def nullable (name : String) (read : Reading → Except Fault α)
    (set : Option α → Record → Record) : Field Record whole :=
  optional name (Reading.readOption read) set

/-- Fills a record from items in the order of its fields. Fields at the end may be missing if they
may be left out; what an item too many is called depends on the origin. -/
def fillFromItems (origin : Origin) : List (Field Record whole) → List (Reading.Part whole) →
    Option Damage → Record → Except Fault Record
  | [], [], damage, record => do
    Damage.meet damage
    return record
  | [], _ :: _, _, _ => throw (if origin = .text then .malformed else .mismatch)
  | field :: fields, [], damage, record => do
    Damage.meet damage
    if (field :: fields).any (·.isRequired) then
      throw .mismatch
    return record
  | field :: fields, item :: items, damage, record => do
    let change ← field.read item
    fillFromItems origin fields items damage (change record)

/-- Fills a record from members in the order in which they are given. Unknown members are passed
over, a field given twice is refused, and so is a record without a required field. -/
def fillFromMembers (fields : List (Field Record whole)) :
    List { member : Member // sizeOf member.value < whole } → Option Damage → List String →
    Record → Except Fault Record
  | [], damage, seen, record => do
    Damage.meet damage
    if fields.any fun field => field.isRequired && !seen.contains field.name then
      throw .mismatch
    return record
  | member :: members, damage, seen, record =>
    match member.val.name with
    | none => throw .malformed
    | some name =>
      match fields.find? (·.name = name) with
      | none => do
        member.val.value.pass
        fillFromMembers fields members damage seen record
      | some field => do
        if seen.contains name then
          throw .mismatch
        let change ← field.read ⟨member.val.value, member.property⟩
        fillFromMembers fields members damage (name :: seen) (change record)

end Field

namespace Reading

/-- Reads a record, starting from its state with no field given. -/
def readRecord {Record : Type} (origin : Origin) (reading : Reading)
    (fields : List (Field Record (sizeOf reading))) (start : Record) : Except Fault Record :=
  match reading with
  | object members damage =>
    Field.fillFromMembers fields (members.attachWith _ fun _ => sizeOf_member_value_lt) damage []
      start
  | array items damage =>
    Field.fillFromItems origin fields (items.attachWith _ fun _ => sizeOf_item_lt) damage start
  | unreadable _ => throw .malformed
  | other => throw other.misfit

/-- Reads the fields of a tagged object, or of an array whose first item is the tag. The tag was read
and all else held before. -/
def readTagged {Record : Type} (reading : Reading)
    (fields : List (Field Record (sizeOf reading))) (start : Record) : Except Fault Record :=
  match reading with
  | object members damage =>
    Field.fillFromMembers fields (members.attachWith _ fun _ => sizeOf_member_value_lt) damage []
      start
  | array items damage =>
    Field.fillFromItems .held fields (items.attachWith _ fun _ => sizeOf_item_lt).tail damage start
  | other => throw other.misfit

end Reading

end Phrasebook.Json
