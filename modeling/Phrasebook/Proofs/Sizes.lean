import Phrasebook.Proofs.ExpansionSteps
import Phrasebook.Proofs.Possibilities

/-! How long the lists of an expansion are at most: what each step adds is bounded by the weight
that counting gives to the step. -/

namespace Phrasebook

theorem length_flatMap_le {α β : Type} {items : List α} {f : α → List β} {k : Nat}
    (h : ∀ item ∈ items, (f item).length ≤ k) : (items.flatMap f).length ≤ items.length * k := by
  induction items with
  | nil => simp
  | cons item rest ih =>
    obtain ⟨hitem, hrest⟩ := List.forall_mem_cons.mp h
    have := ih hrest
    rw [List.flatMap_cons, List.length_append, List.length_cons, Nat.succ_mul]
    omega

namespace Expansion

theorem length_pairs_le (left right : List Expansion) :
    (pairs left right).length ≤ left.length * right.length :=
  length_flatMap_le fun _ _ => List.length_filterMap_le _ _

end Expansion

theorem doubledIf_eq_mul (condition : Bool) (n : Nat) :
    doubledIf condition n = n * if condition then 2 else 1 := by
  unfold doubledIf
  split <;> omega

theorem doubledIf_mono (condition : Bool) {m n : Nat} (h : m ≤ n) :
    doubledIf condition m ≤ doubledIf condition n := by
  unfold doubledIf
  split <;> omega

theorem le_doubledIf (condition : Bool) (n : Nat) : n ≤ doubledIf condition n := by
  unfold doubledIf
  split <;> omega

theorem Definition.length_variants_le (definition : Definition) (all : List Expansion) :
    (definition.variants all).length ≤ doubledIf definition.varyCase all.length := by
  rw [doubledIf_eq_mul]
  refine length_flatMap_le fun expansion _ => ?_
  rw [List.length_map]
  exact Example.length_caseVariants_le _ _

namespace Modifiers

variable {modifiers : Modifiers}

theorem length_presentVariants_le (base : List Expansion) :
    (modifiers.presentVariants base).length ≤ doubledIf modifiers.varyCase base.length := by
  rw [doubledIf_eq_mul]
  refine length_flatMap_le fun expansion _ => ?_
  split
  · exact Nat.zero_le _
  · rw [List.length_map]
    exact Example.length_caseVariants_le _ _

/-- A content has no more alternatives than it weighs. -/
theorem length_alternatives_le (base : List Expansion) :
    (modifiers.alternatives base).length ≤ modifiers.weight base.length := by
  refine Nat.le_trans (length_distinct_le _) ?_
  have hpresent := modifiers.length_presentVariants_le base
  unfold weight
  rw [List.length_append, List.length_map]
  refine Nat.add_le_add ?_ ?_
  · split
    · exact hpresent
    · exact Nat.le_refl 0
  · split <;> simp

theorem weight_mono {m n : Nat} (h : m ≤ n) : modifiers.weight m ≤ modifiers.weight n := by
  have := doubledIf_mono modifiers.varyCase h
  unfold weight
  split <;> omega

theorem le_weight (h : modifiers.canInclude = true) (n : Nat) : n ≤ modifiers.weight n := by
  have := le_doubledIf modifiers.varyCase n
  rw [weight, if_pos h]
  omega

end Modifiers

end Phrasebook
