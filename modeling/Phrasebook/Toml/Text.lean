import Phrasebook.Toml.Quoted
import Phrasebook.Toml.Word

/-! Reading a configuration text. Statements are found first, and the tables are then built from them. -/

namespace Phrasebook.Toml

/-- So many levels of brackets and braces can be read, and so many keys of a path. -/
def maxNesting : Nat := 79

/-- The text behind blanks, new lines and comments; nothing if there is a control character in a
comment. -/
def skipFiller (inComment : Bool) : List Char → Option (List Char)
  | [] => some []
  | '\n' :: rest => skipFiller false rest
  | '\x0d' :: '\n' :: rest => skipFiller false rest
  | c :: rest =>
    if inComment then if isPlain c then skipFiller true rest else none
    else if isBlank c then skipFiller false rest
    else if c = '#' then skipFiller true rest
    else some (c :: rest)

def skipBlanks (cs : List Char) : List Char := cs.dropWhile isBlank

/-! ### Keys -/

/-- A character of a key without quotes. -/
def isKeyChar (c : Char) : Bool := c.isAlphanum || c = '-' || c = '_'

/-- Reads one of the keys of a path. -/
def key? : List Char → Option (String × List Char)
  | '"' :: rest => scanBasic [] rest
  | '\x27' :: rest => scanLiteral rest
  | cs =>
    let word := cs.takeWhile isKeyChar
    if word.isEmpty then none else some (String.ofList word, cs.dropWhile isKeyChar)

/-- Reads keys with dots between them, and the blanks around them, behind the keys found before. -/
def keyPath? (found : List String) (cs : List Char) : Option (KeyPath × List Char) :=
  match key? (skipBlanks cs) with
  | none => none
  | some (key, behind) =>
    match skipBlanks behind with
    | '.' :: rest => if rest.length < cs.length then keyPath? (key :: found) rest else none
    | rest => if found.length < maxNesting then some (⟨found.reverse, key⟩, rest) else none
termination_by cs.length

/-! ### Values -/

/-- Reads the items of an array behind those found before, up to the closing bracket. A comma may stand
behind the last item. -/
def items? (value? : List Char → Option (Toml × List Char)) (found : List Toml) (cs : List Char) :
    Option (List Toml × List Char) :=
  match skipFiller false cs with
  | none => none
  | some (']' :: rest) => some (found.reverse, rest)
  | some start =>
    match value? start with
    | none => none
    | some (item, behind) =>
      match skipFiller false behind with
      | some (']' :: rest) => some ((item :: found).reverse, rest)
      | some (',' :: rest) =>
        if rest.length < cs.length then items? value? (item :: found) rest else none
      | _ => none
termination_by cs.length

/-- Reads the members of a table in braces behind those found before, up to the closing brace. They
stand on one line, and no comma stands behind the last one. -/
def members? (value? : List Char → Option (Toml × List Char)) (found : Table) (cs : List Char) :
    Option (Table × List Char) :=
  match keyPath? [] cs with
  | some (path, '=' :: behind) =>
    match value? (skipBlanks behind) with
    | none => none
    | some (value, behind) =>
      match found.assign path value, skipBlanks behind with
      | some found, '\x7d' :: rest => some (found, rest)
      | some found, ',' :: rest =>
        if rest.length < cs.length then members? value? found rest else none
      | _, _ => none
  | _ => none
termination_by cs.length

def braced? (value? : List Char → Option (Toml × List Char)) (cs : List Char) :
    Option (Table × List Char) :=
  match skipBlanks cs with
  | '\x7d' :: rest => some (⟨.braced, []⟩, rest)
  | _ => do
    let (members, rest) ← members? value? ⟨.header, []⟩ cs
    return ({ members with opening := .braced }, rest)

/-- Reads a value with so many levels of brackets and braces at most. -/
def value? (levels : Nat) (cs : List Char) : Option (Toml × List Char) :=
  match levels, cs with
  | levels + 1, '[' :: rest => do
    let (items, rest) ← items? (value? levels) [] rest
    return (.array items, rest)
  | levels + 1, '\x7b' :: rest => do
    let (inner, rest) ← braced? (value? levels) rest
    return (.table inner, rest)
  | _, c :: rest =>
    if c = '"' || c = '\x27' then do
      let (text, rest) ← quoted? (c :: rest)
      return (.string text, rest)
    else do
      let (word, rest) := splitWord (c :: rest)
      return (← wordValue? word, rest)
  | _, [] => none

/-! ### Statements -/

/-- Reads the header of a table or of one more of the tables of a name, or a key with its value. -/
def statement? : List Char → Option (Statement × List Char)
  | '[' :: '[' :: rest =>
    match keyPath? [] rest with
    | some (path, ']' :: ']' :: rest) => some (.openNext path, rest)
    | _ => none
  | '[' :: rest =>
    match keyPath? [] rest with
    | some (path, ']' :: rest) => some (.openTable path, rest)
    | _ => none
  | cs =>
    match keyPath? [] cs with
    | some (path, '=' :: rest) => do
      let (value, rest) ← value? maxNesting (skipBlanks rest)
      return (.assign path value, rest)
    | _ => none

/-- The text behind the rest of a line, in which only a comment may stand. -/
def afterLine? (cs : List Char) : Option (List Char) :=
  match skipBlanks cs with
  | [] => some []
  | '#' :: comment =>
    match comment.dropWhile isPlain with
    | [] => some []
    | rest => afterNewline? rest
  | rest => afterNewline? rest

def statements? (found : List Statement) (cs : List Char) : Option (List Statement) :=
  match skipFiller false cs with
  | none => none
  | some [] => some found.reverse
  | some start =>
    match statement? start with
    | none => none
    | some (statement, behind) =>
      match afterLine? behind with
      | none => none
      | some rest =>
        if rest.length < cs.length then statements? (statement :: found) rest else none
termination_by cs.length

/-- The text without the byte order mark at its start, if there is one. -/
def dropByteOrderMark : List Char → List Char
  | '\ufeff' :: rest => rest
  | cs => cs

def Table.ofText? (text : String) : Option Table := do
  let statements ← statements? [] (dropByteOrderMark text.toList)
  Document.build statements

end Phrasebook.Toml
