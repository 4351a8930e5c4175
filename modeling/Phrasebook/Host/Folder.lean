import Phrasebook.Host

/-! A host of which nothing is real: a folder of files held in memory, with clocks that stand still.
Directories are known by the files in them. Paths and names that are too long lead nowhere. -/

namespace Phrasebook

/-- The names that lead to a file or directory from the folder on. A path that starts at the root of
all files leads out of the folder, and so does a path through its parent. -/
abbrev Location := List String

/-- Files with their locations. -/
structure Folder where
  files : List (Location × String) := []

namespace Folder

def get? (folder : Folder) (location : Location) : Option String := folder.files.lookup location

/-- Whether there is a file in a directory, at any depth. The folder itself is a directory. -/
def isDirectory (folder : Folder) (location : Location) : Bool :=
  location = [] ||
    folder.files.any fun (file, _) => location.isPrefixOf file && location.length < file.length

/-- One step of a path. The next name leads into a directory, if the way there is open. The root of all
files is its own parent. -/
def step (isOpen : Location → Bool) (here : Location) (name : String) : Option Location :=
  if name = "" || name = "." || (name = ".." && here = ["/"]) then some here
  else if name = ".." && here.getLast?.any (· ≠ "..") then some here.dropLast
  else if isOpen (here ++ [name]) then some (here ++ [name])
  else none

/-- Follows names from the folder on, or from the root of all files if a path starts there. -/
def follow (isOpen : Location → Bool) (path : String) (names : List String) : Option Location :=
  names.foldlM (step isOpen) (if path.startsWith "/" then ["/"] else [])

/-- The largest number of bytes in the name of a file or directory. -/
def maxNameSize : Nat := 255

/-- The largest number of bytes in a path. -/
def maxPathSize : Nat := 4095

/-- The names on a path, unless the path or one of them is too long. -/
def namesOn? (path : String) : Option (List String) := do
  let names := path.splitOn "/"
  guard (path.utf8ByteSize ≤ maxPathSize ∧ ∀ name ∈ names, name.utf8ByteSize ≤ maxNameSize)
  return names

/-- Whether a directory can be made at a location, or is there: no file is in the way. -/
def isFree (folder : Folder) (location : Location) : Bool := (folder.get? location).isNone

/-- The location of a file, if the way there is open. -/
def fileAt? (isOpen : Location → Bool) (path : String) : Option Location := do
  let names ← namesOn? path
  let name ← names.getLast?
  let directory ← follow isOpen path names.dropLast
  return directory ++ [name]

/-- The location of a directory that is there or can be made. -/
def directory? (folder : Folder) (path : String) : Option Location := do
  follow folder.isFree path (← namesOn? path)

def set (folder : Folder) (location : Location) (text : String) : Folder :=
  ⟨(location, text) :: folder.files.filter (·.1 ≠ location)⟩

def names (folder : Folder) (location : Location) : List String :=
  folder.files.filterMap fun (file, _) =>
    if file.dropLast = location then file.getLast? else none

/-- Gives a file a text in place of its old one. -/
def change (path : String) (text : Option String → String) : StateM Folder Bool := fun folder =>
  match fileAt? folder.isFree path with
  | none => (false, folder)
  | some location => (true, folder.set location (text (folder.get? location)))

instance : Host (StateM Folder) where
  readText path := do
    let folder ← get
    return (fileAt? folder.isDirectory path).bind folder.get?
  makeDirectory path := do return ((← get).directory? path).isSome
  writeText path text := change path fun _ => text
  appendText path text := change path fun old => old.getD "" ++ text
  newName := pure "00000000-0000-0000-0000-000000000000"
  time := pure "1970-01-01T00:00:00Z"
  milliseconds := pure 0

end Folder

end Phrasebook
