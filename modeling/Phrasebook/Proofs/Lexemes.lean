import Mathlib.Tactic.SplitIfs
import Phrasebook.Json.Lexeme

/-! The lexemes of a written JSON value. Both layouts put a value behind a text; the text is split, and
what is put behind it adds the lexemes of the value, whatever comes later. Only a number could go on
behind its end, so behind a value there must be something that no number goes on with. -/

namespace Phrasebook

namespace Digits

theorem decimal_toDigits (n : Nat) : decimal (Nat.toDigits 10 n) = n := by
  have hpush : push = fun value digit => 10 * value + (digit.toNat - '0'.toNat) := by
    funext value digit
    rw [push, Nat.mul_comm]
  rw [decimal, hpush, ← Nat.ofDigitChars_eq_foldl, Nat.ofDigitChars_ten_toDigits]

/-- No number but zero is written with a zero in front. -/
theorem head?_toDigits_ne_zero {n : Nat} (hn : n ≠ 0) :
    (Nat.toDigits 10 n).head? ≠ some '0' := by
  induction n using Nat.strongRecOn with
  | ind n ih =>
    by_cases hlt : n < 10
    · have hdigit : ∀ n < 10, n ≠ 0 → n.digitChar ≠ '0' := by decide
      rw [Nat.toDigits_of_lt_base hlt]
      simpa using hdigit n hlt hn
    · rw [Nat.toDigits_of_base_le (by decide) (by omega), List.head?_append,
        Option.or_of_isSome (List.isSome_head?.mpr Nat.toDigits_ne_nil)]
      exact ih (n / 10) (by omega) (by omega)

theorem value?_hexDigit {n : Nat} (hn : n < 16) : value? 16 (Json.hexDigit n) = some n := by
  decide +revert

/-- The four digits that a control character is written with. -/
theorem number?_hexDigits {n : Nat} (hn : n < 0x100) :
    number? 16 ['0', '0', Json.hexDigit (n / 16), Json.hexDigit (n % 16)] = some n := by
  have hzero : value? 16 '0' = some 0 := by decide
  have hhigh := value?_hexDigit (n := n / 16) (by omega)
  have hlow := value?_hexDigit (n := n % 16) (by omega)
  simp only [number?, List.foldlM_cons, List.foldlM_nil, hzero, hhigh, hlow, Option.pure_def,
    Option.bind_eq_bind, Option.bind_some]
  exact congrArg some (by omega)

end Digits

namespace Json

namespace Lexeme

/-! ### Splitting -/

/-- The lexemes found before are kept in front of those that are still to be found. -/
theorem splitOnto_append (found more : List Lexeme) (cs : List Char) :
    splitOnto (found ++ more) cs = splitOnto found cs ++ more := by
  induction found, cs using splitOnto.induct with
  | case1 found => simp [splitOnto]
  | case2 found c cs hblank ih => simpa [splitOnto, hblank] using ih
  | case3 found c cs hblank _ ih => simpa [splitOnto, hblank] using ih

@[simp] theorem split_nil : split [] = [] := by simp [split, splitOnto]

theorem split_blank {c : Char} (h : isBlank c) (cs : List Char) : split (c :: cs) = split cs := by
  rw [split, splitOnto, if_pos h, ← split]

theorem split_cons {c : Char} (h : ¬isBlank c) (cs : List Char) :
    split (c :: cs) = (next c cs).1 :: split (next c cs).2 := by
  rw [split, splitOnto, if_neg h, ← List.nil_append ((next c cs).1 :: []), splitOnto_append,
    List.reverse_append, ← split]
  rfl

/-! ### Strings -/

/-- Behind a backslash, a letter stands for the character that it spells. -/
theorem scanQuoted_letter {letter c : Char} (h : escaped? letter = some c) (state : StringState)
    (rest : List Char) :
    scanQuoted state ('\\' :: letter :: rest) = scanQuoted (state.push c) rest := by
  have hletter : letter ≠ 'u' := by
    rintro rfl
    simp [escaped?] at h
  rw [scanQuoted]
  · simp only [h]
  · exact hletter

/-- Four digits stand for a unit; each takes a byte at least, so there is room for all of them. -/
theorem scanQuoted_unit {a b c d : Char} {unit : Nat}
    (h : Digits.number? 16 [a, b, c, d] = some unit) (state : StringState) (rest : List Char) :
    scanQuoted state ('\\' :: 'u' :: a :: b :: c :: d :: rest) =
      scanQuoted (state.pushUnit unit) rest := by
  have hsize : ¬([a, b, c, d].foldr (fun c size => c.utf8Size + size) 0 < 4) := by
    have := a.utf8Size_pos
    have := b.utf8Size_pos
    have := c.utf8Size_pos
    have := d.utf8Size_pos
    simp only [List.foldr_cons, List.foldr_nil]
    omega
  rw [scanQuoted, List.take_succ_cons, List.take_succ_cons, List.take_succ_cons,
    List.take_succ_cons, List.take_zero, if_neg hsize]
  simp only [h]

theorem scanQuoted_plain {c : Char} (hquote : c ≠ '"') (hbackslash : c ≠ '\\')
    (hcontrol : ¬c.toNat < 0x20) (state : StringState) (rest : List Char) :
    scanQuoted state (c :: rest) = scanQuoted (state.push c) rest := by
  rw [scanQuoted, if_neg hcontrol]
  · exact hquote
  all_goals simp [hbackslash]

/-- An escaped character is read as that character. -/
theorem scanQuoted_escape (past : List Char) (c : Char) (rest : List Char) :
    scanQuoted { reversed := past } (escape c ++ rest) =
      scanQuoted { reversed := c :: past } rest := by
  unfold escape
  split_ifs with h h h h h h h hcontrol
  -- Seven characters have a letter of their own.
  iterate 7 exact scanQuoted_letter (by rw [h]; rfl) _ rest
  · -- Other control characters are no half of a pair.
    have hunit := Digits.number?_hexDigits (n := c.toNat) (by omega)
    refine (scanQuoted_unit hunit _ rest).trans ?_
    rw [StringState.pushUnit, if_neg (by omega), if_neg (by omega), Char.ofNat_toNat]
    rfl
  · exact scanQuoted_plain ‹_› ‹_› hcontrol _ rest

/-- An escaped text is read to its closing quote. -/
theorem scanQuoted_flatMap_escape (past cs rest : List Char) :
    scanQuoted { reversed := past } (cs.flatMap escape ++ '"' :: rest) =
      .closed (some (String.ofList (past.reverse ++ cs))) rest := by
  induction cs generalizing past with
  | nil => simp [scanQuoted, StringState.text?]
  | cons c cs ih => simp [scanQuoted_escape, ih]

/-! ### Numbers -/

/-- No number goes on with this text. -/
def IsBehindNumber : List Char → Prop
  | [] => True
  | c :: _ => ¬c.isDigit ∧ c ≠ '.' ∧ c ≠ 'e' ∧ c ≠ 'E'

theorem IsBehindNumber.takeWhile {rest : List Char} (h : IsBehindNumber rest) :
    rest.takeWhile Char.isDigit = [] := by
  cases rest with
  | nil => rfl
  | cons c cs => exact List.takeWhile_cons_of_neg h.1

theorem IsBehindNumber.dropWhile {rest : List Char} (h : IsBehindNumber rest) :
    rest.dropWhile Char.isDigit = rest := by
  cases rest with
  | nil => rfl
  | cons c cs => exact List.dropWhile_cons_of_neg h.1

theorem IsBehindNumber.scanFraction {rest : List Char} (h : IsBehindNumber rest) :
    scanFraction rest = .ok (none, rest) := by
  unfold Lexeme.scanFraction
  split
  · exact absurd rfl h.2.1
  · rfl

theorem IsBehindNumber.scanExponent {rest : List Char} (h : IsBehindNumber rest) :
    scanExponent rest = .ok (none, rest) := by
  unfold Lexeme.scanExponent
  split
  · exact absurd rfl h.2.2.1
  · exact absurd rfl h.2.2.2
  · rfl

theorem isDigit_of_mem_toDigits {n : Nat} : ∀ c ∈ Nat.toDigits 10 n, c.isDigit :=
  fun _ => Nat.isDigit_of_mem_toDigits (by decide) (by decide)

/-- The digits of a number are taken to their end, and there is nothing more of the number. -/
theorem scanNumber_toDigits (n : Nat) {rest : List Char} (h : IsBehindNumber rest) :
    scanNumber (Nat.toDigits 10 n ++ rest) =
      .ok { whole := Nat.toDigits 10 n, fraction := [], exponent := 0, isPlain := true, rest } := by
  have hzero : ((Nat.toDigits 10 n).head? = some '0' && (Nat.toDigits 10 n).length > 1) = false := by
    by_cases hn : n = 0
    · simp [hn]
    · simp [Digits.head?_toDigits_ne_zero hn]
  rw [scanNumber, List.takeWhile_append_of_pos isDigit_of_mem_toDigits,
    List.dropWhile_append_of_pos isDigit_of_mem_toDigits, h.takeWhile, h.dropWhile, List.append_nil]
  simp [Nat.toDigits_ne_nil, hzero, h.scanFraction, h.scanExponent]

theorem plainNumber_toDigits {n : Nat} (hn : n < UInt64.size) {rest : List Char}
    (h : IsBehindNumber rest) :
    plainNumber false (Nat.toDigits 10 n ++ rest) = (plain (.natural (.ofNat n)), rest) := by
  rw [plainNumber, scanNumber_toDigits n h]
  simp [NumberParts.reading, Digits.decimal_toDigits, hn]

theorem next_of_isDigit {c : Char} (h : c.isDigit) (cs : List Char) :
    next c cs = plainNumber false (c :: cs) := by
  unfold next
  split
  case h_12 => rw [if_pos h]
  all_goals exact absurd h (by decide)

/-! ### Words and marks -/

theorem scanWord_append (word rest : List Char) : scanWord word (word ++ rest) = .ok rest := by
  induction word with
  | nil => rw [List.nil_append, scanWord]
  | cons c word ih => rw [List.cons_append, scanWord, if_pos rfl, ih]

/-- The character that is the whole lexeme. -/
def mark? : Lexeme → Option Char
  | openBracket => some '['
  | closeBracket => some ']'
  | openBrace => some '\x7b'
  | closeBrace => some '\x7d'
  | colon => some ':'
  | comma => some ','
  | _ => none

/-- Whether the text is the mark, perhaps with blanks behind it. -/
def isMark (lexeme : Lexeme) (text : String) : Bool :=
  match text.toList with
  | [] => false
  | c :: blanks => lexeme.mark? = some c && blanks.all isBlank

theorem split_mark {lexeme : Lexeme} {c : Char} (h : lexeme.mark? = some c) (rest : List Char) :
    split (c :: rest) = lexeme :: split rest := by
  cases lexeme <;> cases h <;> rw [split_cons (by decide)] <;> rfl

theorem isBehindNumber_mark {lexeme : Lexeme} {c : Char} (h : lexeme.mark? = some c)
    (rest : List Char) : IsBehindNumber (c :: rest) := by
  cases lexeme <;> cases h <;> simp [IsBehindNumber]

theorem split_blanks {blanks : List Char} (h : ∀ c ∈ blanks, isBlank c) (rest : List Char) :
    split (blanks ++ rest) = split rest := by
  induction blanks with
  | nil => rfl
  | cons c blanks ih =>
    rw [List.cons_append, split_blank (h c List.mem_cons_self)]
    exact ih fun c hc => h c (List.mem_cons_of_mem _ hc)

/-! ### Values -/

theorem split_quote (text : String) (rest : List Char) :
    split ((quote text).toList ++ rest) = quoted (some text) :: split rest := by
  have hscan := scanQuoted_flatMap_escape [] text.toList rest
  rw [List.reverse_nil, List.nil_append, String.ofList_toList] at hscan
  have htext : (quote text).toList ++ rest = '"' :: (text.toList.flatMap escape ++ '"' :: rest) := by
    simp [quote]
  have hnext : next '"' (text.toList.flatMap escape ++ '"' :: rest) = (quoted (some text), rest) := by
    rw [next, hscan]
  rw [htext, split_cons (by decide), hnext]

theorem split_word (letter : Char) (word : List Char) {value : Reading} {text : String}
    (htext : text.toList = letter :: word) (hblank : ¬isBlank letter)
    (hnext : ∀ cs, next letter cs = plainWord word value cs) (rest : List Char) :
    split (text.toList ++ rest) = plain value :: split rest := by
  rw [htext, List.cons_append, split_cons hblank, hnext, plainWord, scanWord_append]

theorem split_null (rest : List Char) :
    split ("null".toList ++ rest) = plain .null :: split rest :=
  split_word 'n' ['u', 'l', 'l'] (by decide) (by decide) (fun _ => rfl) rest

theorem split_bool (value : Bool) (rest : List Char) :
    split ((if value then "true" else "false").toList ++ rest) =
      plain (.bool value) :: split rest := by
  cases value with
  | true => exact split_word 't' ['r', 'u', 'e'] (by decide) (by decide) (fun _ => rfl) rest
  | false => exact split_word 'f' ['a', 'l', 's', 'e'] (by decide) (by decide) (fun _ => rfl) rest

theorem split_natural (count : UInt64) {rest : List Char} (h : IsBehindNumber rest) :
    split ((toString (count.toNat : Int)).toList ++ rest) = plain (.natural count) :: split rest := by
  have hdigits : (toString (count.toNat : Int)).toList = Nat.toDigits 10 count.toNat :=
    Nat.toList_repr
  obtain ⟨c, cs, hcons⟩ :=
    List.exists_cons_of_ne_nil (Nat.toDigits_ne_nil (n := count.toNat) (b := 10))
  have hdigit : c.isDigit := isDigit_of_mem_toDigits c (hcons ▸ List.mem_cons_self)
  have hblank : ¬isBlank c := by
    rintro hblank
    simp only [isBlank, Bool.or_eq_true, decide_eq_true_eq] at hblank
    rcases hblank with ((rfl | rfl) | rfl) | rfl <;> contradiction
  have hnext : next c (cs ++ rest) = (plain (.natural count), rest) := by
    rw [next_of_isDigit hdigit, ← List.cons_append, ← hcons, plainNumber_toDigits count.toNat_lt h,
      UInt64.ofNat_toNat]
  rw [hdigits, hcons, List.cons_append, split_cons hblank, hnext]

/-! ### Texts that are written on -/

/-- The text is split into the lexemes, whatever comes behind it. -/
def Opens (text : String) (lexemes : List Lexeme) : Prop :=
  ∀ rest, split (text.toList ++ rest) = lexemes ++ split rest

/-- The text is split into the lexemes, if no number goes on behind it. -/
def Closes (text : String) (lexemes : List Lexeme) : Prop :=
  ∀ rest, IsBehindNumber rest → split (text.toList ++ rest) = lexemes ++ split rest

variable {out text : String} {found : List Lexeme} {lexeme : Lexeme}

theorem opens_empty : Opens "" [] := by simp [Opens]

theorem Opens.closes (h : Opens out found) : Closes out found := fun rest _ => h rest

theorem Closes.split_eq (h : Closes out found) : split out.toList = found := by
  simpa using h [] trivial

/-- A lexeme that ends where its text does. -/
theorem Opens.add (h : Opens out found)
    (hsplit : ∀ rest, split (text.toList ++ rest) = lexeme :: split rest) :
    Opens (out ++ text) (found ++ [lexeme]) := by
  intro rest
  rw [String.toList_append, List.append_assoc, h, hsplit, List.append_assoc, List.singleton_append]

theorem Opens.number (h : Opens out found) (count : UInt64) :
    Closes (out ++ toString (count.toNat : Int)) (found ++ [plain (.natural count)]) := by
  intro rest hrest
  rw [String.toList_append, List.append_assoc, h, split_natural count hrest, List.append_assoc,
    List.singleton_append]

/-- A mark, with or without blanks behind it, ends what stands before. -/
theorem Closes.mark (h : Closes out found) (hmark : lexeme.isMark text) :
    Opens (out ++ text) (found ++ [lexeme]) := by
  unfold isMark at hmark
  split at hmark
  · contradiction
  next c blanks htext =>
    rw [Bool.and_eq_true, decide_eq_true_eq, List.all_eq_true] at hmark
    obtain ⟨hmark, hblanks⟩ := hmark
    intro rest
    rw [String.toList_append, htext, List.append_assoc, List.cons_append,
      h _ (isBehindNumber_mark hmark _), split_mark hmark, split_blanks hblanks, List.append_assoc,
      List.singleton_append]

theorem Closes.newline (h : Closes out found) (level : Nat) :
    Opens (out ++ newline level) found := by
  have htext : (Json.newline level).toList = '\n' :: List.replicate (2 * level) ' ' := by
    simp [Json.newline]
  have hblanks : ∀ c ∈ '\n' :: List.replicate (2 * level) ' ', isBlank c := by
    intro c hc
    rcases List.mem_cons.mp hc with rfl | hc
    · decide
    · exact List.eq_of_mem_replicate hc ▸ by decide
  intro rest
  rw [String.toList_append, htext, List.append_assoc, h _ (by simp [IsBehindNumber]),
    split_blanks hblanks]

end Lexeme

end Json

end Phrasebook
