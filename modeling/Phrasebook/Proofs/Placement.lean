import Phrasebook.Proofs.Derivation

/-! Where mentions stand. A mention lies inside its text, and each mention ends before the next one
begins. Putting examples together, changing the case of a letter and marking a whole text as a mention
keep it so; and what a mention covers is not changed by what is put before or behind. -/

namespace Phrasebook

theorem FirstLetter.length_replace (counterpart : Char → Option Char) (cs : List Char) :
    (replace counterpart cs).length = cs.length := by
  induction cs with
  | nil => rfl
  | cons c cs ih =>
    unfold replace
    split
    · simp [ih]
    · simp

@[simp] theorem Mention.stop_shift (mention : Mention) (offset : Nat) :
    (mention.shift offset).stop = mention.stop + offset := by
  simp only [stop, shift]
  omega

namespace Example

variable {e first second : Example} {mention : Mention}

@[simp] theorem length_setCase (upper : Bool) (e : Example) :
    (e.setCase upper).length = e.length := by
  simp [length, setCase, FirstLetter.setCase, FirstLetter.length_replace, String.length_toList]

theorem withLeadingSpace_eq (e : Example) : e.withLeadingSpace = append (.ofText " ") e := rfl

theorem isValid_iff : e.isValid = true ↔ ∀ mention ∈ e.mentions, mention.stop ≤ e.length := by
  simp [isValid]

theorem isValid_append (hfirst : first.isValid = true) (hsecond : second.isValid = true) :
    (first.append second).isValid = true := by
  have hlength := length_append first second
  refine isValid_iff.mpr fun mention hmention => ?_
  rcases List.mem_append.mp hmention with hmention | hmention
  · have hstop := isValid_iff.mp hfirst mention hmention
    omega
  · obtain ⟨original, horiginal, rfl⟩ := List.mem_map.mp hmention
    have hstop := isValid_iff.mp hsecond original horiginal
    rw [Mention.stop_shift]
    omega

theorem isValid_setCase (h : e.isValid = true) (upper : Bool) :
    (e.setCase upper).isValid = true := by
  refine isValid_iff.mpr fun mention hmention => ?_
  rw [length_setCase]
  exact isValid_iff.mp h mention hmention

theorem isValid_asMention (e : Example) (slotName canonicalValue : String) :
    (e.asMention slotName canonicalValue).isValid = true := by
  simp [isValid, asMention, Mention.stop, length]

/-- Every mention lies inside the text, and each one ends before the next one begins. -/
structure WellPlaced (e : Example) : Prop where
  isValid : e.isValid = true
  ordered : e.mentions.Pairwise fun a b => a.stop ≤ b.start

namespace WellPlaced

theorem ofText (text : String) : (Example.ofText text).WellPlaced where
  isValid := rfl
  ordered := .nil

theorem empty : WellPlaced {} := .ofText ""

theorem stop_le (h : e.WellPlaced) (hmention : mention ∈ e.mentions) : mention.stop ≤ e.length :=
  isValid_iff.mp h.isValid mention hmention

theorem append (hfirst : first.WellPlaced) (hsecond : second.WellPlaced) :
    (first.append second).WellPlaced where
  isValid := isValid_append hfirst.isValid hsecond.isValid
  ordered := by
    refine List.pairwise_append.mpr ⟨hfirst.ordered, ?_, fun a ha b hb => ?_⟩
    · refine List.pairwise_map.mpr (hsecond.ordered.imp fun {a b} hab => ?_)
      rw [Mention.stop_shift]
      exact Nat.add_le_add_right hab _
    · -- The first example ends before the second begins.
      obtain ⟨original, -, rfl⟩ := List.mem_map.mp hb
      have hstop := hfirst.stop_le ha
      have hstart : first.length ≤ (original.shift first.length).start := Nat.le_add_left _ _
      omega

theorem withLeadingSpace (h : e.WellPlaced) : e.withLeadingSpace.WellPlaced :=
  e.withLeadingSpace_eq ▸ append (.ofText " ") h

theorem setCase (h : e.WellPlaced) (upper : Bool) : (e.setCase upper).WellPlaced where
  isValid := isValid_setCase h.isValid upper
  ordered := h.ordered

theorem asMention (e : Example) (slotName canonicalValue : String) :
    (e.asMention slotName canonicalValue).WellPlaced where
  isValid := isValid_asMention e slotName canonicalValue
  ordered := List.pairwise_singleton _ _

theorem of_mem_caseVariants {varyCase : Bool} {variant : Example} (h : e.WellPlaced)
    (hvariant : variant ∈ e.caseVariants varyCase) : variant.WellPlaced := by
  have hcases := mem_caseVariants.mp hvariant
  split at hcases
  · obtain ⟨upper, rfl⟩ := hcases
    exact h.setCase upper
  · exact hcases ▸ h

theorem of_mem_forms {modifiers : Modifiers} {form : Example} (h : e.WellPlaced)
    (hform : form ∈ modifiers.forms e) : form.WellPlaced := by
  obtain ⟨variant, hvariant, rfl⟩ := List.mem_map.mp hform
  have hplaced := h.of_mem_caseVariants hvariant
  unfold Modifiers.addSpace
  split
  · exact hplaced.withLeadingSpace
  · exact hplaced

end WellPlaced

/-! ### What a mention covers -/

theorem surface?_of_le (h : mention.stop ≤ e.length) : e.surface? mention =
    some (String.ofList ((e.text.toList.drop mention.start).take mention.length)) := if_pos h

theorem surface?_append_left (h : mention.stop ≤ first.length) (second : Example) :
    (first.append second).surface? mention = first.surface? mention := by
  have hstop : mention.stop ≤ (first.append second).length := by
    rw [length_append]
    omega
  have htext : mention.start + mention.length ≤ first.text.toList.length := by
    rw [String.length_toList]
    exact h
  rw [surface?_of_le hstop, surface?_of_le h, append, String.toList_append,
    List.drop_append_of_le_length (by omega), List.take_append_of_le_length (by simp; omega)]

theorem surface?_append_right (first second : Example) (mention : Mention) :
    (first.append second).surface? (mention.shift first.length) = second.surface? mention := by
  have hdrop : (first.append second).text.toList.drop (mention.shift first.length).start =
      second.text.toList.drop mention.start := by
    have hlength : first.length = first.text.toList.length := String.length_toList.symm
    rw [append, String.toList_append, Mention.shift, hlength, Nat.add_comm,
      List.drop_length_add_append]
  unfold surface?
  rw [hdrop, Mention.stop_shift, length_append, Nat.add_comm first.length]
  simp only [Nat.add_le_add_iff_right]
  rfl

end Example

end Phrasebook
