import Phrasebook.FirstLetter

/-! Laws of examples: putting them one behind the other is a monoid, and the variants of an example
are the two cases that its first letter can be put into. -/

namespace Phrasebook

@[simp] theorem Mention.shift_zero (mention : Mention) : mention.shift 0 = mention := rfl

theorem Mention.shift_shift (mention : Mention) (a b : Nat) :
    (mention.shift a).shift b = mention.shift (a + b) := by
  simp [Mention.shift, Nat.add_assoc]

namespace Example

@[simp] theorem length_append (a b : Example) : (a.append b).length = a.length + b.length := by
  simp [append, length]

@[simp] theorem empty_append (e : Example) : append {} e = e := by
  have hshift : Mention.shift (length {}) = id := funext Mention.shift_zero
  simp [append, hshift]

@[simp] theorem append_empty (e : Example) : e.append {} = e := by
  simp [append]

theorem append_assoc (a b c : Example) : (a.append b).append c = a.append (b.append c) := by
  have hshift :
      Mention.shift (a.length + b.length) = Mention.shift a.length ∘ Mention.shift b.length :=
    funext fun mention => by rw [Function.comp, Mention.shift_shift, Nat.add_comm]
  have hmentions : (a.append b).length = a.length + b.length := length_append a b
  unfold append at hmentions ⊢
  simp [hmentions, hshift, String.append_assoc]

/-- Only the two cases of the first letter are variants, and only of an example whose case varies.
-/
theorem mem_caseVariants {varyCase : Bool} {e variant : Example} :
    variant ∈ e.caseVariants varyCase ↔
      if varyCase then ∃ upper, variant = e.setCase upper else variant = e := by
  cases varyCase with
  | false => simp [caseVariants]
  | true =>
    simp only [caseVariants, ite_true, List.mem_map, setCase, Bool.exists_bool]
    unfold FirstLetter.variants
    dsimp only
    split
    · next heq => simp [heq, eq_comm]
    · simp [eq_comm, or_comm]

theorem length_caseVariants_le (varyCase : Bool) (e : Example) :
    (e.caseVariants varyCase).length ≤ if varyCase then 2 else 1 := by
  cases varyCase with
  | false => simp [caseVariants]
  | true =>
    simp only [caseVariants, ite_true, List.length_map]
    unfold FirstLetter.variants
    dsimp only
    split <;> simp

theorem length_caseVariants_pos (varyCase : Bool) (e : Example) :
    0 < (e.caseVariants varyCase).length := by
  cases varyCase with
  | false => simp [caseVariants]
  | true =>
    simp only [caseVariants, ite_true, List.length_map]
    unfold FirstLetter.variants
    dsimp only
    split <;> simp

end Example

end Phrasebook
