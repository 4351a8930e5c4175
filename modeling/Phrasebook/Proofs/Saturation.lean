import Mathlib.Algebra.BigOperators.Group.List.Basic
import Mathlib.Algebra.GroupWithZero.Nat
import Phrasebook.Proofs.Groupings
import Phrasebook.Proofs.Possibilities

/-! Sums and products of possibilities are those of the natural numbers, of which those from 2^64
on are taken as unbounded once, at the end. So the laws of the natural numbers hold, and what lies
between a list of possibilities and their sum or product does not show: no order, no brackets, no
overflow on the way. -/

namespace Phrasebook.Possibilities

variable {a b : Possibilities}

/-- Every value stands for a natural number. -/
theorem exists_ofNat (a : Possibilities) : ∃ n, a = ofNat n := by
  cases a with
  | finite count => exact ⟨count.toNat, (ofNat_toNat count).symm⟩
  | unbounded => exact ⟨UInt64.size, (ofNat_of_le (Nat.le_refl _)).symm⟩

protected theorem add_comm (a b : Possibilities) : a + b = b + a := by
  obtain ⟨m, rfl⟩ := exists_ofNat a
  obtain ⟨n, rfl⟩ := exists_ofNat b
  rw [ofNat_add, ofNat_add, Nat.add_comm]

protected theorem add_assoc (a b c : Possibilities) : a + b + c = a + (b + c) := by
  obtain ⟨k, rfl⟩ := exists_ofNat a
  obtain ⟨m, rfl⟩ := exists_ofNat b
  obtain ⟨n, rfl⟩ := exists_ofNat c
  simp only [ofNat_add, Nat.add_assoc]

protected theorem mul_assoc (a b c : Possibilities) : a * b * c = a * (b * c) := by
  obtain ⟨k, rfl⟩ := exists_ofNat a
  obtain ⟨m, rfl⟩ := exists_ofNat b
  obtain ⟨n, rfl⟩ := exists_ofNat c
  simp only [ofNat_mul, Nat.mul_assoc]

protected theorem mul_add (a b c : Possibilities) : a * (b + c) = a * b + a * c := by
  obtain ⟨k, rfl⟩ := exists_ofNat a
  obtain ⟨m, rfl⟩ := exists_ofNat b
  obtain ⟨n, rfl⟩ := exists_ofNat c
  simp only [ofNat_add, ofNat_mul, Nat.mul_add]

protected theorem add_zero (a : Possibilities) : a + 0 = a := by
  obtain ⟨n, rfl⟩ := exists_ofNat a
  exact ofNat_add n 0

protected theorem mul_one (a : Possibilities) : a * 1 = a := by
  obtain ⟨n, rfl⟩ := exists_ofNat a
  exact (ofNat_mul n 1).trans (congrArg ofNat (Nat.mul_one n))

/-! ### The order -/

theorem isLE_compare_ofNat (m n : Nat) :
    (compare (ofNat m) (ofNat n)).isLE = true ↔ m ≤ n ∨ UInt64.size ≤ n := by
  rcases Nat.lt_or_ge n UInt64.size with hn | hn
  · rw [ofNat_of_lt hn, or_iff_left (Nat.not_le.mpr hn)]
    rcases Nat.lt_or_ge m UInt64.size with hm | hm
    · rw [ofNat_of_lt hm]
      show (compare (UInt64.ofNat m) (UInt64.ofNat n)).isLE = true ↔ _
      rw [Std.isLE_compare, UInt64.le_iff_toNat_le, UInt64.toNat_ofNat_of_lt' hm,
        UInt64.toNat_ofNat_of_lt' hn]
    · rw [ofNat_of_le hm]
      exact iff_of_false nofun (by omega)
  · rw [ofNat_of_le hn]
    refine iff_of_true ?_ (.inr hn)
    cases ofNat m <;> rfl

theorem isLE_compare_add {a' b' : Possibilities} (ha : (compare a a').isLE = true)
    (hb : (compare b b').isLE = true) : (compare (a + b) (a' + b')).isLE = true := by
  obtain ⟨m, rfl⟩ := exists_ofNat a
  obtain ⟨n, rfl⟩ := exists_ofNat b
  obtain ⟨m', rfl⟩ := exists_ofNat a'
  obtain ⟨n', rfl⟩ := exists_ofNat b'
  rw [isLE_compare_ofNat] at ha hb
  rw [ofNat_add, ofNat_add, isLE_compare_ofNat]
  omega

/-- A factor beyond the bound takes the product there, unless the other factor is nothing. -/
theorem mul_le_mul_or_le {bound m n m' n' : Nat} (hbound : 0 < bound) (hm : m ≤ m' ∨ bound ≤ m')
    (hn : n ≤ n' ∨ bound ≤ n') : m * n ≤ m' * n' ∨ bound ≤ m' * n' := by
  rcases Nat.eq_zero_or_pos m' with rfl | hm'
  · obtain rfl : m = 0 := by omega
    exact .inl (Nat.le_of_eq (by simp))
  rcases Nat.eq_zero_or_pos n' with rfl | hn'
  · obtain rfl : n = 0 := by omega
    exact .inl (Nat.le_of_eq (by simp))
  have hleft : m' ≤ m' * n' := Nat.le_mul_of_pos_right m' hn'
  have hright : n' ≤ m' * n' := Nat.le_mul_of_pos_left n' hm'
  rcases hm with hm | hm
  · rcases hn with hn | hn
    · exact .inl (Nat.mul_le_mul hm hn)
    · exact .inr (Nat.le_trans hn hright)
  · exact .inr (Nat.le_trans hm hleft)

theorem isLE_compare_mul {a' b' : Possibilities} (ha : (compare a a').isLE = true)
    (hb : (compare b b').isLE = true) : (compare (a * b) (a' * b')).isLE = true := by
  obtain ⟨m, rfl⟩ := exists_ofNat a
  obtain ⟨n, rfl⟩ := exists_ofNat b
  obtain ⟨m', rfl⟩ := exists_ofNat a'
  obtain ⟨n', rfl⟩ := exists_ofNat b'
  rw [isLE_compare_ofNat] at ha hb
  rw [ofNat_mul, ofNat_mul, isLE_compare_ofNat]
  exact mul_le_mul_or_le (by decide) ha hb

/-! ### Lists -/

theorem foldl_add_ofNat (values : List Nat) (start : Nat) :
    (values.map ofNat).foldl (· + ·) (ofNat start) = ofNat (start + values.sum) := by
  induction values generalizing start with
  | nil => rfl
  | cons value rest ih =>
    rw [List.map_cons, List.foldl_cons, ofNat_add, ih, List.sum_cons, Nat.add_assoc]

theorem foldl_mul_ofNat (values : List Nat) (start : Nat) :
    (values.map ofNat).foldl (· * ·) (ofNat start) = ofNat (start * values.prod) := by
  induction values generalizing start with
  | nil => exact congrArg ofNat (Nat.mul_one start).symm
  | cons value rest ih =>
    rw [List.map_cons, List.foldl_cons, ofNat_mul, ih, List.prod_cons, Nat.mul_assoc]

theorem sum_ofNat (values : List Nat) : sum (values.map ofNat) = ofNat values.sum :=
  (foldl_add_ofNat values 0).trans (congrArg ofNat (Nat.zero_add _))

theorem product_ofNat (values : List Nat) : product (values.map ofNat) = ofNat values.prod :=
  (foldl_mul_ofNat values 1).trans (congrArg ofNat (Nat.one_mul _))

theorem combine_add (grouping : Grouping Possibilities) {values : List Possibilities}
    (h : grouping.items = values) : grouping.combine (· + ·) 0 id = sum values := by
  have hcomm : Std.Commutative fun a b : Possibilities => a + b := ⟨Possibilities.add_comm⟩
  have hassoc : Std.Associative fun a b : Possibilities => a + b := ⟨Possibilities.add_assoc⟩
  rw [grouping.combine_eq_fold Possibilities.add_zero, h, Multiset.map_id, Multiset.coe_fold_l, sum]

theorem combine_mul (grouping : Grouping Possibilities) {values : List Possibilities}
    (h : grouping.items = values) : grouping.combine (· * ·) 1 id = product values := by
  have hcomm : Std.Commutative fun a b : Possibilities => a * b := ⟨Possibilities.mul_comm⟩
  have hassoc : Std.Associative fun a b : Possibilities => a * b := ⟨Possibilities.mul_assoc⟩
  rw [grouping.combine_eq_fold Possibilities.mul_one, h, Multiset.map_id, Multiset.coe_fold_l,
    product]

/-- Arithmetic saturates exactly: numbers and lists of numbers are added and multiplied as natural
numbers, with the results from 2^64 on taken as unbounded; it has the laws of the natural numbers
and keeps their order, and in whatever order and with whatever brackets values are put together, it
comes to their sum or product. -/
theorem saturates :
    (∀ count : UInt64, ofNat count.toNat = finite count) ∧
    (∀ n : Nat, UInt64.size ≤ n → ofNat n = unbounded) ∧
    (∀ m n : Nat, ofNat m + ofNat n = ofNat (m + n) ∧ ofNat m * ofNat n = ofNat (m * n)) ∧
    (∀ values : List Nat, sum (values.map ofNat) = ofNat values.sum ∧
      product (values.map ofNat) = ofNat values.prod) ∧
    (∀ a b c : Possibilities, a + b = b + a ∧ a * b = b * a ∧ a + b + c = a + (b + c) ∧
      a * b * c = a * (b * c) ∧ a * (b + c) = a * b + a * c) ∧
    (∀ a b a' b' : Possibilities, (compare a a').isLE = true → (compare b b').isLE = true →
      (compare (a + b) (a' + b')).isLE = true ∧ (compare (a * b) (a' * b')).isLE = true) ∧
    ∀ (grouping : Grouping Possibilities) (values : List Possibilities), grouping.items = values →
      grouping.combine (· + ·) 0 id = sum values ∧
        grouping.combine (· * ·) 1 id = product values := by
  refine ⟨ofNat_toNat, fun _ => ofNat_of_le, fun m n => ⟨ofNat_add m n, ofNat_mul m n⟩,
    fun values => ⟨sum_ofNat values, product_ofNat values⟩, fun a b c => ?_,
    fun a b a' b' ha hb => ⟨isLE_compare_add ha hb, isLE_compare_mul ha hb⟩,
    fun grouping values h => ⟨combine_add grouping h, combine_mul grouping h⟩⟩
  exact ⟨Possibilities.add_comm a b, Possibilities.mul_comm a b, Possibilities.add_assoc a b c,
    Possibilities.mul_assoc a b c, Possibilities.mul_add a b c⟩

/-- Two large numbers whose product is unbounded, and nothing, multiplied in another order and with
brackets around the large ones. -/
theorem saturates_large_nothing :
    Grouping.combine (· * ·) 1 id
        (.both (.both (.single (finite 0x100000000)) (.single (finite 0x100000000))) (.single 0)) =
      product [0, finite 0x100000000, finite 0x100000000] ∧
    (finite 0x100000000 * finite 0x100000000 = unbounded ∧ unbounded * 0 = 0) ∧
    (compare (finite 3 + 1) (unbounded + 1)).isLE = true := by
  obtain ⟨-, -, -, -, -, hmono, hgroup⟩ := saturates
  refine ⟨(hgroup _ _ ?_).2, by decide, (hmono (finite 3) 1 unbounded 1 rfl rfl).1⟩
  exact Multiset.coe_eq_coe.mpr (List.reverse_perm [0, finite 0x100000000, finite 0x100000000])

end Phrasebook.Possibilities
