/-! What a command needs of the computer that it runs on: files, clocks, and names for new runs. -/

namespace Phrasebook

/-- Files, clocks and names for new runs. -/
class Host (m : Type → Type) where
  /-- The text of a file, unless it cannot be read as text. -/
  readText (path : String) : m (Option String)
  /-- Makes a directory, and those that it lies in; tells whether it is there. -/
  makeDirectory (path : String) : m Bool
  /-- Gives a file a text; tells whether it was written. -/
  writeText (path text : String) : m Bool
  /-- Adds a text to the end of a file; tells whether it was written. -/
  appendText (path text : String) : m Bool
  /-- A name that no other run has. -/
  newName : m String
  /-- The present time in UTC to the second, with hyphens, colons, and the letters `T` and `Z`. -/
  time : m String
  /-- A count of milliseconds from some moment on. -/
  milliseconds : m Nat

end Phrasebook
