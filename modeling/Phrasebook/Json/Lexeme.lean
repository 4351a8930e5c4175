import Phrasebook.Json.Magnitude
import Phrasebook.Json.Reading

/-! The lexemes of a JSON text: brackets, separators, strings and plain values. Splitting stops behind
a lexeme that is damaged, since nothing is known of the text after it. -/

namespace Phrasebook.Json

/-- A smallest piece of a JSON text. -/
inductive Lexeme where
  | openBracket
  | closeBracket
  | openBrace
  | closeBrace
  | colon
  | comma
  /-- A string, unless half a surrogate pair is spelled in it. -/
  | quoted (text : Option String)
  /-- A string that is not finished or spelled wrongly. -/
  | brokenQuoted (damage : Damage)
  /-- A word, a number, or a text that is no lexeme. -/
  | plain (reading : Reading)
deriving Repr

namespace Lexeme

def isBlank (c : Char) : Bool := c = ' ' || c = '\n' || c = '\t' || c = '\x0d'

/-- What is found behind an opening quote. -/
inductive Quoted where
  | closed (text : Option String) (rest : List Char)
  | broken (damage : Damage)

/-- The character of an escape by a single letter. -/
def escaped? : Char → Option Char
  | '"' => some '"'
  | '\\' => some '\\'
  | '/' => some '/'
  | 'b' => some '\x08'
  | 'f' => some '\x0c'
  | 'n' => some '\n'
  | 'r' => some '\x0d'
  | 't' => some '\t'
  | _ => none

/-- The part of a string that was read: its characters, last first, the first half of a surrogate
pair that waits for the second, and whether some half has none. -/
structure StringState where
  reversed : List Char := []
  firstHalf : Option Nat := none
  hasLoneHalf : Bool := false

namespace StringState

/-- Adds a character, which leaves a waiting first half without its second. -/
def push (state : StringState) (c : Char) : StringState where
  reversed := c :: state.reversed
  firstHalf := none
  hasLoneHalf := state.hasLoneHalf || state.firstHalf.isSome

def pushUnit (state : StringState) (unit : Nat) : StringState :=
  if 0xD800 ≤ unit ∧ unit < 0xDC00 then
    { state with
      firstHalf := some unit
      hasLoneHalf := state.hasLoneHalf || state.firstHalf.isSome }
  else if 0xDC00 ≤ unit ∧ unit < 0xE000 then
    match state.firstHalf with
    | none => { state with hasLoneHalf := true }
    | some half =>
      { state with
        reversed :=
          Char.ofNat ((half - 0xD800) * 0x400 + (unit - 0xDC00) + 0x10000) :: state.reversed
        firstHalf := none }
  else
    state.push (Char.ofNat unit)

/-- The string, if each half of a surrogate pair in it has its other half. -/
def text? (state : StringState) : Option String :=
  if state.hasLoneHalf || state.firstHalf.isSome then none
  else some (String.ofList state.reversed.reverse)

/-- The damage of a string that ends with a fault; who reads it stops at an earlier lone half. -/
def damage (state : StringState) (fault : Fault) : Damage :=
  { whenRead := if state.hasLoneHalf then .malformed else fault, whenPassed := fault }

end StringState

/-- Reads a string from behind its opening quote. -/
def scanQuoted (state : StringState) : List Char → Quoted
  | [] => .broken (state.damage .truncated)
  | '"' :: rest => .closed state.text? rest
  | ['\\'] => .broken (state.damage .truncated)
  | '\\' :: 'u' :: rest =>
    if (rest.take 4).foldr (fun c size => c.utf8Size + size) 0 < 4 then
      .broken (state.damage .truncated)
    else
      match rest with
      | a :: b :: c :: d :: rest =>
        match Digits.number? 16 [a, b, c, d] with
        | some unit => scanQuoted (state.pushUnit unit) rest
        | none => .broken (state.damage .malformed)
      | _ => .broken (state.damage .malformed)
  | '\\' :: letter :: rest =>
    match escaped? letter with
    | some c => scanQuoted (state.push c) rest
    | none => .broken (state.damage .malformed)
  | c :: rest =>
    if c.toNat < 0x20 then .broken (state.damage .malformed) else scanQuoted (state.push c) rest

theorem length_le_of_scanQuoted {state : StringState} {cs rest : List Char} {text : Option String}
    (h : scanQuoted state cs = .closed text rest) : rest.length ≤ cs.length := by
  fun_induction scanQuoted state cs <;> simp_all <;> omega

/-- Behind the sign of a number: its digits before the point, after the point and in the exponent,
and the rest of the text; or the damage. -/
structure NumberParts where
  whole : List Char
  fraction : List Char
  exponent : Int
  isPlain : Bool
  rest : List Char

/-- The damage where a digit is missing: who reads the number cares whether the text ends there. -/
def digitMissing (rest : List Char) : Damage :=
  { whenRead := if rest.isEmpty then .truncated else .malformed, whenPassed := .malformed }

/-- Reads the exponent of a number, if there is one. -/
def scanExponent : List Char → Except Damage (Option Int × List Char)
  | 'e' :: rest => signed rest
  | 'E' :: rest => signed rest
  | rest => .ok (none, rest)
where
  signed : List Char → Except Damage (Option Int × List Char)
    | '+' :: rest => digits 1 rest
    | '-' :: rest => digits (-1) rest
    | rest => digits 1 rest
  digits (sign : Int) (cs : List Char) : Except Damage (Option Int × List Char) :=
    let found := cs.takeWhile Char.isDigit
    let rest := cs.dropWhile Char.isDigit
    if found.isEmpty then .error (digitMissing rest)
    else .ok (some (sign * Digits.decimal found), rest)

/-- Reads the digits behind the point of a number, if there is one. -/
def scanFraction : List Char → Except Damage (Option (List Char) × List Char)
  | '.' :: cs =>
    let found := cs.takeWhile Char.isDigit
    let rest := cs.dropWhile Char.isDigit
    if found.isEmpty then .error (digitMissing rest) else .ok (some found, rest)
  | rest => .ok (none, rest)

/-- Reads a number from behind its sign. -/
def scanNumber (cs : List Char) : Except Damage NumberParts :=
  let whole := cs.takeWhile Char.isDigit
  let rest := cs.dropWhile Char.isDigit
  if whole.isEmpty then .error (digitMissing rest)
  else if whole.head? = some '0' && whole.length > 1 then .error (.of .malformed)
  else
    match scanFraction rest with
    | .error damage => .error damage
    | .ok (fraction, rest) =>
      match scanExponent rest with
      | .error damage => .error damage
      | .ok (exponent, rest) =>
        .ok {
          whole
          fraction := fraction.getD []
          exponent := exponent.getD 0
          isPlain := fraction.isNone && exponent.isNone
          rest }

/-- The reading of a number, spelled with a sign or without. -/
def NumberParts.reading (parts : NumberParts) (isNegative : Bool) (literal : List Char) : Reading :=
  let value := Digits.decimal parts.whole
  if parts.isPlain && !isNegative && value < UInt64.size then
    .natural (UInt64.ofNat value)
  else
    let number := Reading.otherNumber (String.ofList literal)
    let magnitude := (Magnitude.ofDigits parts.whole parts.fraction).scale parts.exponent
    if magnitude.isUnreadable then .unreadable number else number

/-- Reads a word of which the first letter was read. -/
def scanWord : List Char → List Char → Except Damage (List Char)
  | [], rest => .ok rest
  | _ :: _, [] => .error (.of .truncated)
  | expected :: more, c :: rest =>
    if c = expected then scanWord more rest else .error (.of .malformed)

theorem length_le_of_scanWord {word cs rest : List Char} (h : scanWord word cs = .ok rest) :
    rest.length ≤ cs.length := by
  fun_induction scanWord word cs <;> simp_all
  omega

theorem length_dropWhile_le (p : Char → Bool) (cs : List Char) :
    (cs.dropWhile p).length ≤ cs.length :=
  (List.dropWhile_suffix p).length_le

theorem length_le_of_scanFraction {cs rest : List Char} {fraction : Option (List Char)}
    (h : scanFraction cs = .ok (fraction, rest)) : rest.length ≤ cs.length := by
  unfold scanFraction at h
  split at h
  · next tail =>
    have := length_dropWhile_le Char.isDigit tail
    simp only at h
    split at h
    · contradiction
    · injection h with h
      injection h with _ h
      subst h
      simp
      omega
  · injection h with h
    injection h with _ h
    exact h ▸ Nat.le_refl _

theorem length_le_of_digits {sign : Int} {cs rest : List Char} {exponent : Option Int}
    (h : scanExponent.digits sign cs = .ok (exponent, rest)) : rest.length ≤ cs.length := by
  unfold scanExponent.digits at h
  simp only at h
  split at h
  · contradiction
  · injection h with h
    injection h with _ h
    exact h ▸ length_dropWhile_le Char.isDigit cs

theorem length_le_of_signed {cs rest : List Char} {exponent : Option Int}
    (h : scanExponent.signed cs = .ok (exponent, rest)) : rest.length ≤ cs.length := by
  unfold scanExponent.signed at h
  split at h <;> have := length_le_of_digits h <;> simp <;> omega

theorem length_le_of_scanExponent {cs rest : List Char} {exponent : Option Int}
    (h : scanExponent cs = .ok (exponent, rest)) : rest.length ≤ cs.length := by
  unfold scanExponent at h
  split at h
  · have := length_le_of_signed h
    simp
    omega
  · have := length_le_of_signed h
    simp
    omega
  · injection h with h
    injection h with _ h
    exact h ▸ Nat.le_refl _

theorem length_le_of_scanNumber {cs : List Char} {parts : NumberParts}
    (h : scanNumber cs = .ok parts) : parts.rest.length ≤ (cs.dropWhile Char.isDigit).length := by
  simp only [scanNumber] at h
  split at h
  · contradiction
  split at h
  · contradiction
  split at h
  · contradiction
  next hfraction =>
    split at h
    · contradiction
    next hexponent =>
      have := length_le_of_scanFraction hfraction
      have := length_le_of_scanExponent hexponent
      injection h with h
      subst h
      simp only
      omega

/-- A word that stands for a value. -/
def plainWord (word : List Char) (value : Reading) (cs : List Char) : Lexeme × List Char :=
  match scanWord word cs with
  | .ok rest => (plain value, rest)
  | .error damage => (plain (.broken damage.ofPlain), [])

/-- A number, of which the sign was read if it has one. -/
def plainNumber (isNegative : Bool) (cs : List Char) : Lexeme × List Char :=
  match scanNumber cs with
  | .ok parts =>
    let literal := cs.take (cs.length - parts.rest.length)
    (plain (parts.reading isNegative (if isNegative then '-' :: literal else literal)), parts.rest)
  | .error damage => (plain (.broken damage.ofPlain), [])

/-- The lexeme at the start of a text without leading blanks, and the rest of the text. Behind a
damaged lexeme there is no rest. -/
def next (c : Char) (cs : List Char) : Lexeme × List Char :=
  match c with
  | '[' => (openBracket, cs)
  | ']' => (closeBracket, cs)
  | '\x7b' => (openBrace, cs)
  | '\x7d' => (closeBrace, cs)
  | ':' => (colon, cs)
  | ',' => (comma, cs)
  | '"' =>
    match scanQuoted {} cs with
    | .closed text rest => (quoted text, rest)
    | .broken damage => (brokenQuoted damage, [])
  | 'n' => plainWord ['u', 'l', 'l'] .null cs
  | 't' => plainWord ['r', 'u', 'e'] (.bool true) cs
  | 'f' => plainWord ['a', 'l', 's', 'e'] (.bool false) cs
  | '-' => plainNumber true cs
  | c => if c.isDigit then plainNumber false (c :: cs) else (plain (.broken (.of .malformed)), [])

theorem length_plainWord_le (word : List Char) (value : Reading) (cs : List Char) :
    (plainWord word value cs).2.length ≤ cs.length := by
  unfold plainWord
  split
  · next h => exact length_le_of_scanWord h
  · simp

theorem length_plainNumber_le (isNegative : Bool) (cs : List Char) :
    (plainNumber isNegative cs).2.length ≤ (cs.dropWhile Char.isDigit).length := by
  unfold plainNumber
  split
  · next h => exact length_le_of_scanNumber h
  · simp

theorem length_next_le (c : Char) (cs : List Char) : (next c cs).2.length ≤ cs.length := by
  unfold next
  split
  case h_7 =>
    split
    · next h => exact length_le_of_scanQuoted h
    · simp
  case h_8 => exact length_plainWord_le ..
  case h_9 => exact length_plainWord_le ..
  case h_10 => exact length_plainWord_le ..
  case h_11 => exact Nat.le_trans (length_plainNumber_le true cs) (length_dropWhile_le _ cs)
  case h_12 =>
    split
    · next hdigit =>
      have := length_plainNumber_le false (c :: cs)
      rw [List.dropWhile_cons_of_pos hdigit] at this
      exact Nat.le_trans this (length_dropWhile_le _ cs)
    · simp
  all_goals exact Nat.le_refl _

/-- The lexemes of a text behind those found before, last first. -/
def splitOnto (found : List Lexeme) : List Char → List Lexeme
  | [] => found
  | c :: cs =>
    if isBlank c then splitOnto found cs
    else
      have := length_next_le c cs
      splitOnto ((next c cs).1 :: found) (next c cs).2
termination_by cs => cs.length

def split (cs : List Char) : List Lexeme := (splitOnto [] cs).reverse

end Lexeme

end Phrasebook.Json
