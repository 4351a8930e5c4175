import Phrasebook.Proofs.Substitution

/-! Where markers are found. Behind a name that ends like an identifier a marker ends only at an
edge of a word, which has a character of words on exactly one side. If the name ends in a character
of words, no such character follows: markers are whole identifiers, and none is found at the start
of a longer one. A name that ends in a number which belongs to no word, such as a superscript, has
its edge the other way round: its markers are found at the start of longer identifiers only. -/

namespace Phrasebook

namespace Marker

variable {marker : Marker} {last : Char}

/-- The marker is written at the position, whatever comes behind it. -/
def StandsAt (marker : Marker) (text : String) (start : Nat) : Prop :=
  marker.literal <+: text.toList.drop start

instance (text : String) (start : Nat) : Decidable (marker.StandsAt text start) :=
  inferInstanceAs (Decidable (_ <+: _))

theorem startsAt_iff {cs : List Char} : marker.startsAt cs = true ↔
    marker.literal <+: cs ∧ marker.endsBefore (cs.drop marker.length) = true := by
  unfold startsAt
  rw [Bool.and_eq_true, List.isPrefixOf_iff_prefix]

/-- Behind a name that ends like an identifier there is an edge of a word. -/
theorem endsBefore_of_endsIdentifier (hlast : marker.name.toList.getLast? = some last)
    (hends : endsIdentifier last = true) (rest : List Char) :
    marker.endsBefore rest = (isWordChar last != rest.head?.any isWordChar) := by
  unfold endsBefore
  rw [hlast]
  simp only [hends, Bool.not_true, Bool.false_or]

/-- Behind a name that ends in a character of words there is no such character, if the name ends
like an identifier; else anything may follow. -/
theorem endsBefore_of_isWordChar (hlast : marker.name.toList.getLast? = some last)
    (hword : isWordChar last = true) (rest : List Char) :
    marker.endsBefore rest = (!endsIdentifier last || !rest.head?.any isWordChar) := by
  unfold endsBefore
  rw [hlast]
  simp only [hword, Bool.true_bne]

/-- Markers are found where they are written with an edge of a word behind them, unless they overlap
one that was found before. -/
theorem mem_starts_iff_edge (hlast : marker.name.toList.getLast? = some last)
    (hends : endsIdentifier last = true) (text : String) (start : Nat) :
    start ∈ marker.starts text ↔ marker.StandsAt text start ∧
      (∀ earlier ∈ marker.starts text, earlier < start → earlier + marker.length ≤ start) ∧
      isWordChar last ≠ (text.toList[start + marker.length]?).any isWordChar := by
  have hleftmost : marker.Leftmost text.toList (marker.starts text) := marker.leftmost_split _
  rw [hleftmost.mem_iff, startsAt_iff, endsBefore_of_endsIdentifier hlast hends, List.drop_drop,
    List.head?_drop, bne_iff_ne, and_assoc]
  exact and_congr_right fun _ => and_comm

/-- Markers whose name ends in a character of words are found as whole identifiers: where they are
written at the end of the text or with no character of a word behind them, unless they overlap one
that was found before. -/
theorem mem_starts_iff_whole (hlast : marker.name.toList.getLast? = some last)
    (hends : endsIdentifier last = true) (hword : isWordChar last = true) (text : String)
    (start : Nat) :
    start ∈ marker.starts text ↔ marker.StandsAt text start ∧
      (∀ earlier ∈ marker.starts text, earlier < start → earlier + marker.length ≤ start) ∧
      (start + marker.length = text.length ∨
        ∃ c, text.toList[start + marker.length]? = some c ∧ isWordChar c = false) := by
  rw [mem_starts_iff_edge hlast hends, hword]
  refine and_congr_right fun hstands => and_congr_right fun _ => ?_
  -- A marker that is written in the text ends in the text.
  have hinside : start + marker.length ≤ text.length := by
    have hle := hstands.length_le
    rw [List.length_drop, String.length_toList, length_literal] at hle
    have hpos := marker.length_pos
    omega
  cases hnext : text.toList[start + marker.length]? with
  | none =>
    have hbehind := List.getElem?_eq_none_iff.mp hnext
    rw [String.length_toList] at hbehind
    have hend : start + marker.length = text.length := Nat.le_antisymm hinside hbehind
    simp [hend]
  | some c =>
    obtain ⟨hless, -⟩ := List.getElem?_eq_some_iff.mp hnext
    rw [String.length_toList] at hless
    have hend : start + marker.length ≠ text.length := Nat.ne_of_lt hless
    simp [hend]

end Marker

/-! A marker, and a longer identifier that starts like it. -/

namespace Requests

theorem who_found_whole : who.name.toList.getLast? = some 'o' ∧ endsIdentifier 'o' = true ∧
    isWordChar 'o' = true ∧ 5 ∈ who.starts "call $who, not $whoever" ∧
      who.StandsAt "call $who, not $whoever" 15 ∧ 15 ∉ who.starts "call $who, not $whoever" := by
  have hlast : who.name.toList.getLast? = some 'o' := by decide +kernel
  have hends : endsIdentifier 'o' = true := by decide +kernel
  have hword : isWordChar 'o' = true := by decide +kernel
  have hfound := Marker.mem_starts_iff_whole hlast hends hword "call $who, not $whoever"
  refine ⟨hlast, hends, hword, (hfound 5).mpr ?_, by decide +kernel, fun hmem => ?_⟩
  · exact ⟨by decide +kernel, by decide +kernel, .inr ⟨',', by decide +kernel, by decide +kernel⟩⟩
  · obtain ⟨-, -, hend | ⟨c, hnext, hedge⟩⟩ := (hfound 15).mp hmem
    · exact absurd hend (by decide +kernel)
    · have hletter : "call $who, not $whoever".toList[15 + who.length]? = some 'e' := by
        decide +kernel
      obtain rfl : 'e' = c := Option.some.inj (hletter.symm.trans hnext)
      exact absurd hedge (by decide +kernel)

end Requests

/-! A name that ends in a number which belongs to no word. -/

namespace Powers

def squared : Marker := ⟨"x²"⟩

/-- The marker is not found where it is the whole text, but at the start of a longer identifier. -/
theorem not_found_whole : squared.name.toList.getLast? = some '²' ∧ endsIdentifier '²' = true ∧
    squared.StandsAt "$x²" 0 ∧ 0 + squared.length = "$x²".length ∧ squared.starts "$x²" = [] ∧
    squared.StandsAt "$x²y" 0 ∧ isWordChar 'y' = true ∧
    "$x²y".toList[0 + squared.length]? = some 'y' ∧ squared.starts "$x²y" = [0] := by
  decide +kernel

end Powers

end Phrasebook
