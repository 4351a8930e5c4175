import Phrasebook.Digits

/-! Quoted texts of a configuration text. In double quotes a backslash starts an escape, in single
quotes it does not; behind three quotes of either kind the text may have several lines. -/

namespace Phrasebook.Toml

/-- A blank inside a line. -/
def isBlank (c : Char) : Bool := c = ' ' || c = '\t'

/-- A character that may stand in a quoted text or a comment: no control character but the tab. -/
def isPlain (c : Char) : Bool := c = '\t' || (' ' ≤ c && c ≠ '\x7f')

/-- The text behind the new line at its start. -/
def afterNewline? : List Char → Option (List Char)
  | '\n' :: rest => some rest
  | '\x0d' :: '\n' :: rest => some rest
  | _ => none

/-- The text behind blanks and new lines. -/
def skipLines : List Char → List Char
  | '\x0d' :: '\n' :: rest => skipLines rest
  | c :: rest => if isBlank c || c = '\n' then skipLines rest else c :: rest
  | [] => []

theorem length_lt_of_afterNewline? {cs rest : List Char} (h : afterNewline? cs = some rest) :
    rest.length < cs.length := by
  unfold afterNewline? at h
  split at h
  · simp only [Option.some.injEq] at h
    simp only [h, List.length_cons]
    omega
  · simp only [Option.some.injEq] at h
    simp only [h, List.length_cons]
    omega
  · contradiction

theorem length_skipLines_le (cs : List Char) : (skipLines cs).length ≤ cs.length := by
  fun_induction skipLines cs <;> simp_all <;> omega

/-- The character spelled by a fixed number of hexadecimal digits, and the text behind them. -/
def unicodeEscape? (count : Nat) (cs : List Char) : Option (Char × List Char) := do
  let digits := cs.take count
  let code ← Digits.number? 16 digits
  if digits.length = count ∧ code.isValidChar then some (Char.ofNat code, cs.drop count) else none

/-- The character of the escape behind a backslash, and the text behind the escape. -/
def escape? : List Char → Option (Char × List Char)
  | 'b' :: rest => some ('\x08', rest)
  | 't' :: rest => some ('\t', rest)
  | 'n' :: rest => some ('\n', rest)
  | 'f' :: rest => some ('\x0c', rest)
  | 'r' :: rest => some ('\x0d', rest)
  | '"' :: rest => some ('"', rest)
  | '\\' :: rest => some ('\\', rest)
  | 'u' :: rest => unicodeEscape? 4 rest
  | 'U' :: rest => unicodeEscape? 8 rest
  | _ => none

theorem length_le_of_unicodeEscape? {count : Nat} {cs rest : List Char} {c : Char}
    (h : unicodeEscape? count cs = some (c, rest)) : rest.length ≤ cs.length := by
  simp only [unicodeEscape?, Option.bind_eq_bind, Option.bind_eq_some_iff] at h
  obtain ⟨_, _, h⟩ := h
  split at h
  · simp only [Option.some.injEq, Prod.mk.injEq] at h
    obtain ⟨_, rfl⟩ := h
    simp
  · contradiction

theorem length_lt_of_escape? {cs rest : List Char} {c : Char}
    (h : escape? cs = some (c, rest)) : rest.length < cs.length := by
  unfold escape? at h
  split at h
  case h_8 => exact Nat.lt_succ_of_le (length_le_of_unicodeEscape? h)
  case h_9 => exact Nat.lt_succ_of_le (length_le_of_unicodeEscape? h)
  all_goals simp_all

/-- Reads a text from behind its opening double quote. -/
def scanBasic (reversed : List Char) : List Char → Option (String × List Char)
  | [] => none
  | '"' :: rest => some (String.ofList reversed.reverse, rest)
  | '\\' :: rest =>
    match h : escape? rest with
    | none => none
    | some (c, behind) =>
      have := length_lt_of_escape? h
      scanBasic (c :: reversed) behind
  | c :: rest => if isPlain c then scanBasic (c :: reversed) rest else none
termination_by cs => cs.length

/-- Reads a text from behind its opening single quote. -/
def scanLiteral (cs : List Char) : Option (String × List Char) :=
  match cs.dropWhile fun c => isPlain c && c ≠ '\x27' with
  | '\x27' :: rest =>
    some (String.ofList (cs.takeWhile fun c => isPlain c && c ≠ '\x27'), rest)
  | _ => none

/-- Ends a text of several lines behind three quotes; up to two more quotes belong to the text. -/
def closeLines (quote : Char) (reversed rest : List Char) : String × List Char :=
  let more := (rest.take 2).takeWhile (· = quote)
  (String.ofList (more ++ reversed).reverse, rest.drop more.length)

/-- Reads a text of several lines from behind its opening double quotes. A backslash at the end of a
line takes the new line out of the text, with all blanks and new lines behind it. -/
def scanBasicLines (reversed : List Char) : List Char → Option (String × List Char)
  | [] => none
  | '"' :: '"' :: '"' :: rest => some (closeLines '"' reversed rest)
  | '\\' :: rest =>
    match hline : afterNewline? (rest.dropWhile isBlank) with
    | some behind =>
      have := length_lt_of_afterNewline? hline
      have := (List.dropWhile_suffix isBlank (l := rest)).length_le
      have := length_skipLines_le behind
      scanBasicLines reversed (skipLines behind)
    | none =>
      match h : escape? rest with
      | none => none
      | some (c, behind) =>
        have := length_lt_of_escape? h
        scanBasicLines (c :: reversed) behind
  | '\x0d' :: '\n' :: rest => scanBasicLines ('\n' :: reversed) rest
  | c :: rest => if isPlain c || c = '\n' then scanBasicLines (c :: reversed) rest else none
termination_by cs => cs.length

/-- Reads a text of several lines from behind its opening single quotes. -/
def scanLiteralLines (reversed : List Char) : List Char → Option (String × List Char)
  | [] => none
  | '\x27' :: '\x27' :: '\x27' :: rest => some (closeLines '\x27' reversed rest)
  | '\x0d' :: '\n' :: rest => scanLiteralLines ('\n' :: reversed) rest
  | c :: rest => if isPlain c || c = '\n' then scanLiteralLines (c :: reversed) rest else none

/-- The text without the new line at its start, if there is one. -/
def dropNewline (cs : List Char) : List Char := (afterNewline? cs).getD cs

/-- Reads a quoted text of any kind from its opening quote on. -/
def quoted? : List Char → Option (String × List Char)
  | '"' :: '"' :: '"' :: rest => scanBasicLines [] (dropNewline rest)
  | '"' :: rest => scanBasic [] rest
  | '\x27' :: '\x27' :: '\x27' :: rest => scanLiteralLines [] (dropNewline rest)
  | '\x27' :: rest => scanLiteral rest
  | _ => none

end Phrasebook.Toml
