import Phrasebook.Counting

/-! Arithmetic of possibilities. A result that is a number comes from numbers, and is what the
natural numbers make of them; only nothing hides what it is multiplied with. -/

namespace Phrasebook

/-- Twice a number, if each comes in two forms. -/
def doubledIf (condition : Bool) (n : Nat) : Nat := if condition then n * 2 else n

theorem doubledIf_add (condition : Bool) (m n : Nat) :
    doubledIf condition (m + n) = doubledIf condition m + doubledIf condition n := by
  unfold doubledIf
  split <;> omega

namespace Possibilities

variable {a b : Possibilities} {n : UInt64}

theorem ofNat_eq_finite {k : Nat} (h : ofNat k = finite n) : n.toNat = k := by
  unfold ofNat at h
  split at h
  · next hsize =>
    rw [← finite.inj h]
    exact UInt64.toNat_ofNat_of_lt' hsize
  · contradiction

theorem add_eq_finite (h : a + b = finite n) :
    ∃ x y, a = finite x ∧ b = finite y ∧ n.toNat = x.toNat + y.toNat := by
  cases a with
  | unbounded => cases b <;> contradiction
  | finite x =>
    cases b with
    | unbounded => contradiction
    | finite y => exact ⟨x, y, rfl, rfl, ofNat_eq_finite h⟩

/-- Neither factor is nothing, so that neither can be unbounded. -/
theorem mul_eq_finite (ha : a ≠ 0) (hb : b ≠ 0) (h : a * b = finite n) :
    ∃ x y, a = finite x ∧ b = finite y ∧ n.toNat = x.toNat * y.toNat := by
  have hzero {x : UInt64} (hx : finite x ≠ 0) : x ≠ 0 := fun heq => hx (congrArg finite heq)
  cases a with
  | unbounded =>
    cases b with
    | unbounded => cases h
    | finite y =>
      have h : (if y = 0 then finite 0 else unbounded) = finite n := h
      rw [if_neg (hzero hb)] at h
      cases h
  | finite x =>
    cases b with
    | unbounded =>
      have h : (if x = 0 then finite 0 else unbounded) = finite n := h
      rw [if_neg (hzero ha)] at h
      cases h
    | finite y => exact ⟨x, y, rfl, rfl, ofNat_eq_finite h⟩

theorem doubledIf_eq_finite {condition : Bool} (h : a.doubledIf condition = finite n) :
    ∃ x, a = finite x ∧ n.toNat = Phrasebook.doubledIf condition x.toNat := by
  unfold doubledIf at h
  unfold Phrasebook.doubledIf
  cases condition with
  | false => exact ⟨n, h, rfl⟩
  | true =>
    cases a with
    | unbounded => contradiction
    | finite x => exact ⟨x, rfl, ofNat_eq_finite h⟩

/-! Capped arithmetic is that of the natural numbers, capped at the end. -/

theorem ofNat_of_lt {n : Nat} (h : n < UInt64.size) : ofNat n = finite (.ofNat n) := if_pos h

theorem ofNat_of_le {n : Nat} (h : UInt64.size ≤ n) : ofNat n = unbounded :=
  if_neg (Nat.not_lt.mpr h)

theorem ofNat_toNat (n : UInt64) : ofNat n.toNat = finite n := by
  rw [ofNat_of_lt n.toNat_lt, UInt64.ofNat_toNat]

theorem ofNat_add (a b : Nat) : ofNat a + ofNat b = ofNat (a + b) := by
  rcases Nat.lt_or_ge a UInt64.size with ha | ha
  · rcases Nat.lt_or_ge b UInt64.size with hb | hb
    · rw [ofNat_of_lt ha, ofNat_of_lt hb]
      show ofNat ((UInt64.ofNat a).toNat + (UInt64.ofNat b).toNat) = _
      rw [UInt64.toNat_ofNat_of_lt' ha, UInt64.toNat_ofNat_of_lt' hb]
    · rw [ofNat_of_le hb, ofNat_of_le (n := a + b) (by omega)]
      cases ofNat a <;> rfl
  · rw [ofNat_of_le ha, ofNat_of_le (n := a + b) (by omega)]
    rfl

protected theorem mul_comm (a b : Possibilities) : a * b = b * a := by
  cases a with
  | finite x =>
    cases b with
    | finite y => exact congrArg ofNat (Nat.mul_comm x.toNat y.toNat)
    | unbounded => rfl
  | unbounded => cases b <;> rfl

theorem ofNat_mul_unbounded {n : Nat} (h : 0 < n) : ofNat n * unbounded = unbounded := by
  rcases Nat.lt_or_ge n UInt64.size with hn | hn
  · have hne : UInt64.ofNat n ≠ 0 := by
      intro heq
      have hzero := congrArg UInt64.toNat heq
      rw [UInt64.toNat_ofNat_of_lt' hn] at hzero
      exact absurd hzero (Nat.ne_of_gt h)
    rw [ofNat_of_lt hn]
    exact if_neg hne
  · rw [ofNat_of_le hn]
    rfl

theorem ofNat_mul_of_le {a b : Nat} (hb : UInt64.size ≤ b) : ofNat a * ofNat b = ofNat (a * b) := by
  rcases Nat.eq_zero_or_pos a with rfl | ha
  · rw [ofNat_of_le hb, Nat.zero_mul]
    rfl
  · have hle : b ≤ a * b := Nat.le_mul_of_pos_left b ha
    rw [ofNat_of_le hb, ofNat_mul_unbounded ha, ofNat_of_le (Nat.le_trans hb hle)]

theorem ofNat_mul (a b : Nat) : ofNat a * ofNat b = ofNat (a * b) := by
  rcases Nat.lt_or_ge b UInt64.size with hb | hb
  · rcases Nat.lt_or_ge a UInt64.size with ha | ha
    · rw [ofNat_of_lt ha, ofNat_of_lt hb]
      show ofNat ((UInt64.ofNat a).toNat * (UInt64.ofNat b).toNat) = _
      rw [UInt64.toNat_ofNat_of_lt' ha, UInt64.toNat_ofNat_of_lt' hb]
    · rw [Possibilities.mul_comm, ofNat_mul_of_le ha, Nat.mul_comm]
  · exact ofNat_mul_of_le hb

theorem doubledIf_ofNat (condition : Bool) (n : Nat) :
    (ofNat n).doubledIf condition = ofNat (Phrasebook.doubledIf condition n) := by
  cases condition with
  | false => rfl
  | true => exact ofNat_mul n 2

end Possibilities

namespace Modifiers

variable {modifiers : Modifiers} {base : Possibilities} {n : UInt64}

/-- The number of alternatives of a content, from the number without its modifiers. -/
def weight (modifiers : Modifiers) (n : Nat) : Nat :=
  (if modifiers.canInclude then doubledIf modifiers.varyCase n else 0) +
    if modifiers.canExclude then 1 else 0

/-- Every percentage admits a decision, which brings a content or leaves it out. -/
theorem canInclude_or_canExclude (modifiers : Modifiers) :
    modifiers.canInclude = true ∨ modifiers.canExclude = true := by
  unfold canInclude canExclude
  cases modifiers.isOptional with
  | false => simp
  | true =>
    obtain ⟨decision, hdecision⟩ :
        ∃ decision, decision ∈ decisionOutcomes modifiers.inclusionPercent := by
      by_cases hpercent : modifiers.inclusionPercent > 0
      · exact ⟨true, by simp [decisionOutcomes, hpercent]⟩
      · have hless : modifiers.inclusionPercent < 100 := by
          simp only [gt_iff_lt, UInt8.lt_iff_toNat_lt, UInt8.reduceToNat] at hpercent ⊢
          omega
        exact ⟨false, by simp [decisionOutcomes, hless]⟩
    simp only [Bool.not_true, Bool.false_or, Bool.true_and, List.any_eq_true]
    cases hincluded : modifiers.includedBy decision with
    | true => exact .inl ⟨decision, hdecision, hincluded⟩
    | false => exact .inr ⟨decision, hdecision, by rw [hincluded]; rfl⟩

theorem weight_pos {k : Nat} (h : modifiers.canInclude = true → 0 < k) :
    0 < modifiers.weight k := by
  unfold weight
  rcases modifiers.canInclude_or_canExclude with hinclude | hexclude
  · have := h hinclude
    simp only [hinclude, ite_true, doubledIf]
    split <;> omega
  · simp [hexclude]

theorem toNat_excluded {absent : UInt64}
    (h : (if modifiers.canExclude then 1 else 0 : Possibilities) = .finite absent) :
    absent.toNat = if modifiers.canExclude then 1 else 0 := by
  cases hexclude : modifiers.canExclude with
  | true =>
    rw [hexclude] at h
    exact Possibilities.ofNat_eq_finite h
  | false =>
    rw [hexclude] at h
    exact Possibilities.ofNat_eq_finite h

theorem weigh_eq_finite (hinclude : modifiers.canInclude = true)
    (h : modifiers.weigh base = .finite n) :
    ∃ x, base = .finite x ∧ n.toNat = modifiers.weight x.toNat := by
  unfold weigh at h
  obtain ⟨present, absent, hpresent, habsent, hsum⟩ := Possibilities.add_eq_finite h
  rw [if_pos hinclude] at hpresent
  obtain ⟨x, rfl, hx⟩ := Possibilities.doubledIf_eq_finite hpresent
  refine ⟨x, rfl, ?_⟩
  rw [weight, if_pos hinclude, hsum, hx, toNat_excluded habsent]

theorem weigh_skipped (hskipped : modifiers.canInclude = false)
    (h : modifiers.weigh base = .finite n) :
    n.toNat = modifiers.weight 0 := by
  unfold weigh at h
  obtain ⟨present, absent, hpresent, habsent, hsum⟩ := Possibilities.add_eq_finite h
  have hnothing : (0 : Possibilities) = .finite present := by simpa [hskipped] using hpresent
  rw [hsum, toNat_excluded habsent, Possibilities.ofNat_eq_finite hnothing]
  simp [weight, hskipped]

theorem weigh_ofNat (modifiers : Modifiers) (k : Nat) :
    modifiers.weigh (.ofNat k) = .ofNat (modifiers.weight k) := by
  unfold weigh weight
  rw [← Possibilities.ofNat_add, Possibilities.doubledIf_ofNat]
  cases modifiers.canInclude <;> cases modifiers.canExclude <;> rfl

theorem weigh_of_skipped (hskipped : modifiers.canInclude = false) (base : Possibilities) :
    modifiers.weigh base = .ofNat (modifiers.weight 0) := by
  rw [← weigh_ofNat, weigh, weigh, hskipped]
  rfl

end Modifiers

end Phrasebook
