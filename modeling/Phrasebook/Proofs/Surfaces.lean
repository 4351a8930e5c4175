import Phrasebook.Proofs.Placement

/-! What mentions cover, through the operations on examples. Putting examples together moves mentions
along with the text below them, marking a whole text covers it all, and a change of case is seen only
by the mentions that cover the letter. Positions count characters; the bytes between which a mention
lies spell what it covers, whatever the sizes of the characters before and inside it. -/

namespace Phrasebook

/-! ### Bytes -/

/-- The byte at which the character with an index begins, or at which the text ends. -/
def byteOffset? : List Char → Nat → Option Nat
  | _, 0 => some 0
  | [], _ + 1 => none
  | c :: cs, index + 1 => (byteOffset? cs index).map (c.utf8Size + ·)

theorem byteOffset?_eq (cs : List Char) (index : Nat) : byteOffset? cs index =
    if index ≤ cs.length then some (String.ofList (cs.take index)).utf8ByteSize else none := by
  induction cs generalizing index with
  | nil =>
    cases index with
    | zero => rfl
    | succ index => simp [byteOffset?]
  | cons c cs ih =>
    cases index with
    | zero => simp [byteOffset?]
    | succ index =>
      rw [byteOffset?, ih]
      simp only [List.length_cons, Nat.add_le_add_iff_right, List.take_succ_cons]
      split
      · rw [Option.map_some, String.ofList_cons, String.utf8ByteSize_append,
          String.utf8ByteSize_singleton]
      · rfl

theorem fromUTF8?_toByteArray (text : String) : String.fromUTF8? text.toByteArray = some text := by
  unfold String.fromUTF8?
  rw [dif_pos text.isValidUTF8]
  rfl

/-- Of three texts behind each other, the one in the middle lies between its first and last bytes. -/
theorem extract_append (before text behind : String) :
    (before ++ text ++ behind).toByteArray.extract before.utf8ByteSize
      (before ++ text).utf8ByteSize = text.toByteArray := by
  have hbehind : (before ++ text ++ behind).toByteArray.extract before.utf8ByteSize
      (before ++ text).utf8ByteSize = (before ++ text).toByteArray.extract before.utf8ByteSize
      (before ++ text).utf8ByteSize := by
    rw [String.toByteArray_append, ← String.size_toByteArray (s := before ++ text),
      ByteArray.extract_append_size_left]
  rw [hbehind, String.toByteArray_append]
  refine ByteArray.extract_append_eq_right String.size_toByteArray.symm ?_
  rw [String.size_toByteArray, String.size_toByteArray, String.utf8ByteSize_append]

theorem extract_ofList (cs : List Char) (start length : Nat) :
    (String.ofList cs).toByteArray.extract (String.ofList (cs.take start)).utf8ByteSize
        (String.ofList (cs.take (start + length))).utf8ByteSize =
      (String.ofList ((cs.drop start).take length)).toByteArray := by
  have hfront : String.ofList (cs.take (start + length)) =
      String.ofList (cs.take start) ++ String.ofList ((cs.drop start).take length) := by
    rw [List.take_add, String.ofList_append]
  have hall : String.ofList cs =
      String.ofList (cs.take (start + length)) ++ String.ofList (cs.drop (start + length)) := by
    rw [← String.ofList_append, List.take_append_drop]
  rw [hall, hfront]
  exact extract_append _ _ _

namespace Example

variable {e first second : Example} {mention : Mention}

/-- The text between the bytes at which the characters of a mention begin and end. -/
def slice? (e : Example) (mention : Mention) : Option String := do
  let start ← byteOffset? e.text.toList mention.start
  let stop ← byteOffset? e.text.toList mention.stop
  String.fromUTF8? (e.text.toByteArray.extract start stop)

/-- The bytes of a mention spell what it covers. -/
theorem slice?_eq_surface? (e : Example) (mention : Mention) :
    e.slice? mention = e.surface? mention := by
  have hlength : e.text.toList.length = e.length := String.length_toList
  unfold slice? surface?
  rw [byteOffset?_eq, byteOffset?_eq, hlength]
  by_cases hstop : mention.stop ≤ e.length
  · have hstart : mention.start ≤ e.length := Nat.le_trans (Nat.le_add_right _ _) hstop
    have hextract := extract_ofList e.text.toList mention.start mention.length
    rw [String.ofList_toList] at hextract
    rw [if_pos hstart, if_pos hstop, if_pos hstop, Option.bind_eq_bind, Option.bind_some,
      Option.bind_some, Mention.stop, hextract, fromUTF8?_toByteArray]
  · rw [if_neg hstop, if_neg hstop]
    split <;> rfl

end Example

/-! ### The first letter -/

namespace FirstLetter

/-- The index of the first character that is no blank; where there is none, the number of blanks. -/
def place (cs : List Char) : Nat := (cs.takeWhile Unicode.isBlank).length

theorem place_cons_of_blank {c : Char} (h : Unicode.isBlank c = true) (cs : List Char) :
    place (c :: cs) = place cs + 1 := by
  unfold place
  rw [List.takeWhile_cons_of_pos h, List.length_cons]

theorem place_cons_of_not_blank {c : Char} (h : ¬Unicode.isBlank c = true) (cs : List Char) :
    place (c :: cs) = 0 := by
  unfold place
  rw [List.takeWhile_cons_of_neg h, List.length_nil]

theorem replace_eq_modify (counterpart : Char → Option Char) (cs : List Char) :
    replace counterpart cs = cs.modify (place cs) fun c => (counterpart c).getD c := by
  induction cs with
  | nil => rfl
  | cons c cs ih =>
    unfold replace
    split
    · next hblank => rw [place_cons_of_blank hblank, List.modify_succ_cons, ih]
    · next hletter => rw [place_cons_of_not_blank hletter, List.modify_zero_cons]

theorem place_drop {cs : List Char} {count : Nat} (h : count ≤ place cs) :
    place (cs.drop count) = place cs - count := by
  induction cs generalizing count with
  | nil => simp [place]
  | cons c cs ih =>
    cases count with
    | zero => rfl
    | succ count =>
      by_cases hblank : Unicode.isBlank c = true
      · rw [place_cons_of_blank hblank] at h ⊢
        rw [List.drop_succ_cons, ih (Nat.le_of_succ_le_succ h), Nat.add_sub_add_right]
      · rw [place_cons_of_not_blank hblank] at h
        exact (Nat.not_succ_le_zero count h).elim

theorem place_take {cs : List Char} {count : Nat} (h : place cs < count) :
    place (cs.take count) = place cs := by
  induction cs generalizing count with
  | nil => rw [List.take_nil]
  | cons c cs ih =>
    obtain ⟨count, rfl⟩ := Nat.exists_eq_succ_of_ne_zero (Nat.ne_zero_of_lt h)
    rw [List.take_succ_cons]
    by_cases hblank : Unicode.isBlank c = true
    · rw [place_cons_of_blank hblank] at h
      rw [place_cons_of_blank hblank, place_cons_of_blank hblank, ih (Nat.lt_of_succ_lt_succ h)]
    · rw [place_cons_of_not_blank hblank, place_cons_of_not_blank hblank]

variable {counterpart : Char → Option Char} {cs : List Char} {start length : Nat}

/-- A stretch with the first letter of a text begins with blanks, so that this is its own first
letter. -/
theorem take_drop_replace_of_covers (hstart : start ≤ place cs) (hstop : place cs < start + length) :
    ((replace counterpart cs).drop start).take length =
      replace counterpart ((cs.drop start).take length) := by
  have hplace : place ((cs.drop start).take length) = place cs - start := by
    rw [place_take (by rw [place_drop hstart]; omega), place_drop hstart]
  rw [replace_eq_modify, replace_eq_modify, hplace, List.drop_modify_of_ge _ _ _ _ hstart,
    List.take_modify]

theorem take_drop_replace_of_not_covers (h : ¬(start ≤ place cs ∧ place cs < start + length)) :
    ((replace counterpart cs).drop start).take length = (cs.drop start).take length := by
  rw [replace_eq_modify]
  by_cases hstart : start ≤ place cs
  · have hlength : ((cs.drop start).take length).length ≤ place cs - start :=
      Nat.le_trans (List.length_take_le _ _) (by omega)
    rw [List.drop_modify_of_ge _ _ _ _ hstart, List.take_modify, List.modify_eq_self hlength]
  · rw [List.drop_modify_of_lt _ _ _ _ (Nat.lt_of_not_le hstart)]

end FirstLetter

namespace Example

variable {e first second : Example} {mention : Mention}

/-- The mention covers the first character of the text that is no blank. -/
def CoversLetter (e : Example) (mention : Mention) : Prop :=
  mention.start ≤ FirstLetter.place e.text.toList ∧ FirstLetter.place e.text.toList < mention.stop

instance (e : Example) (mention : Mention) : Decidable (e.CoversLetter mention) :=
  inferInstanceAs (Decidable (_ ∧ _))

/-- A change of case changes the surface of a mention just if it covers the letter, and there it is a
change of case too. -/
theorem surface?_setCase (upper : Bool) (e : Example) (mention : Mention) :
    (e.setCase upper).surface? mention =
      if e.CoversLetter mention then (e.surface? mention).map (FirstLetter.setCase upper)
      else e.surface? mention := by
  have htext : (e.setCase upper).text.toList =
      FirstLetter.replace (FirstLetter.counterpart upper) e.text.toList := String.toList_ofList
  unfold surface?
  rw [length_setCase, htext]
  split
  · split
    · next hcovers =>
      rw [FirstLetter.take_drop_replace_of_covers hcovers.1 hcovers.2, Option.map_some,
        FirstLetter.setCase, String.toList_ofList]
    · next hcovers => rw [FirstLetter.take_drop_replace_of_not_covers hcovers]
  · split <;> rfl

/-! ### The operations -/

/-- What the mentions of an example say: the slot, the value and the surface of each. -/
def annotations (e : Example) : List (String × String × Option String) :=
  e.mentions.map fun mention => (mention.slotName, mention.canonicalValue, e.surface? mention)

theorem annotations_append (hfirst : first.isValid = true) (second : Example) :
    (first.append second).annotations = first.annotations ++ second.annotations := by
  unfold annotations
  have hmentions : (first.append second).mentions =
      first.mentions ++ second.mentions.map (·.shift first.length) := rfl
  rw [hmentions, List.map_append, List.map_map]
  congr 1
  · refine List.map_congr_left fun mention hmention => ?_
    rw [surface?_append_left (isValid_iff.mp hfirst mention hmention)]
  · refine List.map_congr_left fun mention _ => ?_
    show (_, _, (first.append second).surface? (mention.shift first.length)) = _
    rw [surface?_append_right]
    rfl

theorem annotations_withLeadingSpace (e : Example) :
    e.withLeadingSpace.annotations = e.annotations := by
  rw [withLeadingSpace_eq, annotations_append rfl]
  rfl

theorem annotations_asMention (e : Example) (slotName canonicalValue : String) :
    (e.asMention slotName canonicalValue).annotations =
      [(slotName, canonicalValue, some e.text)] := by
  have hall : e.length = e.text.toList.length := String.length_toList.symm
  unfold annotations
  rw [asMention, List.map_singleton, surface?_of_le (by simp [Mention.stop, length])]
  dsimp only
  rw [List.drop_zero, hall, List.take_length, String.ofList_toList]

/-- An example that operations make of given ones. -/
inductive Composed (given : Example → Prop) : Example → Prop
  | given {e : Example} : given e → Composed given e
  | append {first second : Example} : Composed given first → Composed given second →
      Composed given (first.append second)
  | withLeadingSpace {e : Example} : Composed given e → Composed given e.withLeadingSpace
  | asMention {e : Example} (slotName canonicalValue : String) :
      Composed given e → Composed given (e.asMention slotName canonicalValue)
  | setCase {e : Example} (upper : Bool) : Composed given e → Composed given (e.setCase upper)

theorem isValid_withLeadingSpace (h : e.isValid = true) : e.withLeadingSpace.isValid = true :=
  e.withLeadingSpace_eq ▸ isValid_append rfl h

theorem Composed.isValid {given : Example → Prop} (hgiven : ∀ e, given e → e.isValid = true)
    (h : Composed given e) : e.isValid = true := by
  induction h with
  | given he => exact hgiven _ he
  | append _ _ hfirst hsecond => exact isValid_append hfirst hsecond
  | withLeadingSpace _ ih => exact isValid_withLeadingSpace ih
  | asMention slotName canonicalValue _ _ => exact isValid_asMention _ slotName canonicalValue
  | setCase upper _ ih => exact isValid_setCase ih upper

/-- What the next operation does to the mentions of an example, or of one and another behind it. -/
structure KeepsMentions (first second : Example) : Prop where
  isValid : first.isValid = true
  /-- Each mention covers a part of the text, which lies between its bytes. -/
  surface : ∀ mention ∈ first.mentions, ∃ text,
    first.surface? mention = some text ∧ first.slice? mention = some text
  append_isValid : (first.append second).isValid = true
  append_annotations : (first.append second).annotations = first.annotations ++ second.annotations
  space_isValid : first.withLeadingSpace.isValid = true
  space_annotations : first.withLeadingSpace.annotations = first.annotations
  mention_isValid : ∀ slotName canonicalValue,
    (first.asMention slotName canonicalValue).isValid = true
  mention_annotations : ∀ slotName canonicalValue,
    (first.asMention slotName canonicalValue).annotations =
      [(slotName, canonicalValue, some first.text)]
  case_isValid : ∀ upper, (first.setCase upper).isValid = true
  case_length : ∀ upper, (first.setCase upper).length = first.length
  case_mentions : ∀ upper, (first.setCase upper).mentions = first.mentions
  /-- Only what covers the first letter is changed, and only in its first letter. -/
  case_surface : ∀ upper, ∀ mention ∈ first.mentions,
    (first.setCase upper).surface? mention =
      if first.CoversLetter mention then
        (first.surface? mention).map (FirstLetter.setCase upper)
      else first.surface? mention

/-- Whatever was made of examples with mentions inside their texts, the next operation leaves mentions
inside the text, and their surfaces as they were but for the case of the first letter. -/
theorem Composed.keepsMentions {given : Example → Prop} (hgiven : ∀ e, given e → e.isValid = true)
    (hfirst : Composed given first) (hsecond : Composed given second) :
    first.KeepsMentions second := by
  have hvalid := hfirst.isValid hgiven
  constructor
  case isValid => exact hvalid
  case surface =>
    intro mention hmention
    have hsurface := surface?_of_le (isValid_iff.mp hvalid mention hmention)
    exact ⟨_, hsurface, (slice?_eq_surface? first mention).trans hsurface⟩
  case append_isValid => exact isValid_append hvalid (hsecond.isValid hgiven)
  case append_annotations => exact annotations_append hvalid second
  case space_isValid => exact isValid_withLeadingSpace hvalid
  case space_annotations => exact annotations_withLeadingSpace first
  case mention_isValid => exact isValid_asMention first
  case mention_annotations => exact annotations_asMention first
  case case_isValid => exact isValid_setCase hvalid
  case case_length => exact fun upper => length_setCase upper first
  case case_mentions => exact fun _ => rfl
  case case_surface => exact fun upper mention _ => surface?_setCase upper first mention

end Example

/-! A slot behind a greeting; the letters with accents take two bytes each. -/

namespace Arrival

def greeting : Example where
  text := "à bientôt "
  mentions := [⟨"farewell", "later", 0, 9⟩]

def place : Example := (Example.ofText "évian").asMention "city" "Evian"

theorem isValid_given (e : Example) (h : e = greeting ∨ e = place) : e.isValid = true := by
  obtain rfl | rfl := h <;> decide +kernel

theorem keepsMentions_greeting :
    (∀ e, e = greeting ∨ e = place → e.isValid = true) ∧
    Example.Composed (fun e => e = greeting ∨ e = place) (greeting.setCase true) ∧
    Example.Composed (fun e => e = greeting ∨ e = place) (place.setCase true) ∧
    ((greeting.setCase true).append (place.setCase true)).annotations =
      [("farewell", "later", some "À bientôt"), ("city", "Evian", some "Évian")] := by
  have hgreeting : Example.Composed (fun e => e = greeting ∨ e = place) (greeting.setCase true) :=
    .setCase true (.given (.inl rfl))
  have hplace : Example.Composed (fun e => e = greeting ∨ e = place) (place.setCase true) :=
    .setCase true (.given (.inr rfl))
  have hkept := Example.Composed.keepsMentions isValid_given hgreeting hplace
  refine ⟨isValid_given, hgreeting, hplace, hkept.append_annotations.trans ?_⟩
  decide +kernel

end Arrival

end Phrasebook
