/-! Values of a configuration text in TOML, and how its tables grow line by line. A table has one
header, a key has one value, and what one way of writing a table has made no other way extends. -/

namespace Phrasebook

/-- How a table came to be. -/
inductive Toml.Opening where
  /-- By a header of its own, or as the table of the whole text. -/
  | header
  /-- By a header of a table inside it. -/
  | implied
  /-- By a key with dots. -/
  | dotted
  /-- In braces, where it is complete. -/
  | braced
deriving DecidableEq, Repr

mutual

/-- A value of a configuration text. -/
inductive Toml where
  | string (text : String)
  /-- A number of 64 bits with a sign. -/
  | integer (value : Int)
  /-- A floating-point number, as it is spelled. -/
  | float (literal : String)
  | boolean (value : Bool)
  /-- A date, a time of day or both, as it is spelled. -/
  | dateTime (literal : String)
  | array (items : List Toml)
  | table (table : Toml.Table)
  /-- Tables of one name with a header each, of which the last one can grow. -/
  | tables (earlier : List Toml.Table) (last : Toml.Table)

/-- A table with its members in the order of their first mention. -/
structure Toml.Table where
  opening : Toml.Opening
  members : List (String × Toml)

end

namespace Toml

/-- A key, behind the keys of the tables that lead to it. -/
structure KeyPath where
  parents : List String
  last : String
deriving DecidableEq, Repr

def KeyPath.keys (path : KeyPath) : List String := path.parents ++ [path.last]

/-- What leads to a table: a header, or a key with dots. -/
inductive Approach where
  | header
  | dottedKey
deriving DecidableEq, Repr

namespace Approach

/-- How a table is made that is missing on the way. -/
def opening : Approach → Opening
  | header => .implied
  | dottedKey => .dotted

/-- Whether the way may lead through a table. -/
def mayEnter : Approach → Opening → Bool
  | header, opening => opening ≠ .braced
  | dottedKey, opening => opening = .implied || opening = .dotted

end Approach

namespace Table

def get? (table : Table) (key : String) : Option Toml := table.members.lookup key

/-- The members with a new value in place of that of a key, or behind all others. -/
def setMember (key : String) (value : Toml) : List (String × Toml) → List (String × Toml)
  | [] => [(key, value)]
  | (name, old) :: rest =>
    if name = key then (name, value) :: rest else (name, old) :: setMember key value rest

def set (table : Table) (key : String) (value : Toml) : Table :=
  { table with members := setMember key value table.members }

/-- Changes the table behind a path of keys; tables that are missing on the way are made. Of tables of
one name, the way leads through the last. -/
def change (approach : Approach) (step : Table → Option Table) :
    List String → Table → Option Table
  | [], outer => step outer
  | key :: path, outer =>
    match outer.get? key with
    | none => do
      let inner ← change approach step path ⟨approach.opening, []⟩
      return outer.set key (.table inner)
    | some (.table inner) =>
      if approach.mayEnter inner.opening then do
        let inner ← change approach step path inner
        return outer.set key (.table inner)
      else none
    | some (.tables earlier last) => do
      let last ← change approach step path last
      return outer.set key (.tables earlier last)
    | some _ => none

/-- Gives a value to a new key of a table. A key with dots extends only a table that such keys made. -/
def assign (path : KeyPath) (value : Toml) (table : Table) : Option Table :=
  table.change .dottedKey
    (fun inner =>
      if path.parents ≠ [] ∧ inner.opening ≠ .dotted then none
      else if (inner.get? path.last).isSome then none
      else some (inner.set path.last value))
    path.parents

def openTable (path : KeyPath) (table : Table) : Option Table :=
  table.change .header
    (fun parent =>
      match parent.get? path.last with
      | none => some (parent.set path.last (.table ⟨.header, []⟩))
      | some (.table ⟨.implied, members⟩) =>
        some (parent.set path.last (.table ⟨.header, members⟩))
      | some _ => none)
    path.parents

/-- Opens one more of the tables of a name by a header. -/
def openNext (path : KeyPath) (table : Table) : Option Table :=
  table.change .header
    (fun parent =>
      match parent.get? path.last with
      | none => some (parent.set path.last (.tables [] ⟨.header, []⟩))
      | some (.tables earlier last) =>
        some (parent.set path.last (.tables (earlier ++ [last]) ⟨.header, []⟩))
      | some _ => none)
    path.parents

end Table

/-- A line of a configuration text, or several lines if its value has them. -/
inductive Statement where
  /-- A key and its value, in the table opened last. -/
  | assign (path : KeyPath) (value : Toml)
  | openTable (path : KeyPath)
  /-- The header of one more of the tables of a name. -/
  | openNext (path : KeyPath)

/-- The tables of the statements so far. -/
structure Document where
  root : Table := ⟨.header, []⟩
  /-- The way to the table opened last. -/
  current : List String := []

namespace Document

/-- The tables with one more statement. -/
def take (document : Document) : Statement → Option Document
  | .assign path value => do
    let root ← document.root.change .header (Table.assign path value) document.current
    return { document with root }
  | .openTable path => do
    let root ← document.root.openTable path
    return { root, current := path.keys }
  | .openNext path => do
    let root ← document.root.openNext path
    return { root, current := path.keys }

def build (statements : List Statement) : Option Table := do
  let document ← statements.foldlM take {}
  return document.root

end Document

end Toml

end Phrasebook
