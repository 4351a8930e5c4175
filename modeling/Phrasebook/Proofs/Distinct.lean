import Mathlib.Data.List.Basic
import Mathlib.Data.List.Induction
import Phrasebook.Distinct

/-! The items that are kept when repetitions are dropped. The keys that were seen are always those
of the items that were taken, so that one more item is taken exactly if its key is new. -/

namespace Phrasebook

variable {α β : Type} [BEq β] [Hashable β] [LawfulBEq β] {key : α → β}

/-- The keys seen stay those of the items taken. -/
theorem mem_takeNew {state : Std.HashSet β × Array α} {k : β} (item : α)
    (h : ∀ k, k ∈ state.1 ↔ k ∈ state.2.toList.map key) :
    k ∈ (takeNew key state item).1 ↔ k ∈ (takeNew key state item).2.toList.map key := by
  unfold takeNew
  split
  · exact h k
  · simp only [Std.HashSet.mem_insert, Array.toList_push, List.map_append, List.mem_append,
      List.map_cons, List.map_nil, List.mem_singleton, beq_iff_eq, h k]
    constructor
    · rintro (rfl | hk)
      · exact .inr rfl
      · exact .inl hk
    · rintro (hk | rfl)
      · exact .inr hk
      · exact .inl rfl

theorem mem_seen_iff (key : α → β) (items : List α) (k : β) :
    k ∈ (items.foldl (takeNew key) (∅, #[])).1 ↔ k ∈ (distinctBy key items).map key := by
  unfold distinctBy
  induction items using List.reverseRecOn generalizing k with
  | nil => simp
  | append_singleton items item ih =>
    simp only [List.foldl_append, List.foldl_cons, List.foldl_nil]
    exact mem_takeNew item ih

/-- One more item is taken exactly if its key is new. -/
theorem distinctBy_concat (items : List α) (item : α) :
    distinctBy key (items ++ [item]) =
      if ((distinctBy key items).map key).contains (key item) then distinctBy key items
      else distinctBy key items ++ [item] := by
  have hseen := mem_seen_iff key items (key item)
  rw [Std.HashSet.mem_iff_contains, ← List.contains_iff_mem, ← Bool.eq_iff_iff] at hseen
  rw [← hseen]
  unfold distinctBy
  simp only [List.foldl_append, List.foldl_cons, List.foldl_nil]
  rw [takeNew]
  split
  · rfl
  · rw [Array.toList_push]

theorem distinctBy_subset (items : List α) : distinctBy key items ⊆ items := by
  induction items using List.reverseRecOn with
  | nil => exact List.Subset.refl _
  | append_singleton items item ih =>
    rw [distinctBy_concat]
    split
    · exact List.subset_append_of_subset_left _ ih
    · exact List.append_subset.mpr ⟨List.subset_append_of_subset_left _ ih,
        List.subset_append_right _ _⟩

theorem length_distinctBy_le (items : List α) :
    (distinctBy key items).length ≤ items.length := by
  induction items using List.reverseRecOn with
  | nil => exact Nat.le_refl 0
  | append_singleton items item ih =>
    rw [distinctBy_concat]
    split <;> simp <;> omega

/-- No two items that are kept have one key. -/
theorem nodup_map_distinctBy (items : List α) : ((distinctBy key items).map key).Nodup := by
  induction items using List.reverseRecOn with
  | nil => exact List.nodup_nil
  | append_singleton items item ih =>
    rw [distinctBy_concat]
    split
    · exact ih
    · next hnew =>
      rw [List.contains_iff_mem] at hnew
      rw [List.map_append, List.map_singleton, List.nodup_append]
      refine ⟨ih, by simp, fun a ha b hb => ?_⟩
      rw [List.mem_singleton.mp hb]
      exact fun heq => hnew (heq ▸ ha)

/-- Every key is kept with one item. -/
theorem mem_map_distinctBy {items : List α} {k : β} :
    k ∈ (distinctBy key items).map key ↔ k ∈ items.map key := by
  induction items using List.reverseRecOn generalizing k with
  | nil => rfl
  | append_singleton items item ih =>
    rw [distinctBy_concat, List.map_append, List.map_singleton]
    split
    · next hseen =>
      rw [List.contains_iff_mem, ih] at hseen
      rw [ih, List.mem_append, List.mem_singleton]
      exact ⟨.inl, fun h => h.elim id fun heq => heq ▸ hseen⟩
    · rw [List.map_append, List.map_singleton, List.mem_append, List.mem_append, ih]

/-- An item is kept exactly if no item before its place has its key. -/
theorem distinctBy_eq_filter (items : List α) : distinctBy key items =
    (items.zipIdx.filter fun (item, place) =>
      !((items.take place).map key).contains (key item)).map (·.1) := by
  induction items using List.reverseRecOn with
  | nil => rfl
  | append_singleton items item ih =>
    have hpast : items.zipIdx.filter (fun (other, place) =>
          !(((items ++ [item]).take place).map key).contains (key other)) =
        items.zipIdx.filter fun (other, place) =>
          !((items.take place).map key).contains (key other) := by
      refine List.filter_congr fun (other, place) hentry => ?_
      have hplace : place < items.length := List.snd_lt_of_mem_zipIdx hentry
      dsimp only
      rw [List.take_append_of_le_length (Nat.le_of_lt hplace)]
    have hseen : ((distinctBy key items).map key).contains (key item) =
        (items.map key).contains (key item) := by
      rw [Bool.eq_iff_iff, List.contains_iff_mem, List.contains_iff_mem, mem_map_distinctBy]
    rw [distinctBy_concat, hseen, List.zipIdx_append, List.filter_append, hpast, List.map_append,
      ← ih]
    simp only [Nat.zero_add, List.zipIdx_singleton, List.filter_cons, List.take_left,
      List.filter_nil]
    cases (items.map key).contains (key item) <;> simp

@[simp] theorem mem_distinct {items : List β} {item : β} :
    item ∈ distinct items ↔ item ∈ items := by
  have hkeys : item ∈ (distinctBy id items).map id ↔ item ∈ items.map id := mem_map_distinctBy
  rwa [List.map_id, List.map_id] at hkeys

theorem length_distinct_le (items : List β) : (distinct items).length ≤ items.length :=
  length_distinctBy_le items

/-! ### Repetitions dropped early -/

section Order

variable {γ : Type} [BEq γ] [Hashable γ] [LawfulBEq γ] {first second items rest : List β}

theorem distinct_concat (items : List β) (item : β) : distinct (items ++ [item]) =
    if items.contains item then distinct items else distinct items ++ [item] := by
  have hseen : ((distinctBy id items).map id).contains item = items.contains item := by
    rw [Bool.eq_iff_iff, List.contains_iff_mem, List.contains_iff_mem, List.map_id]
    exact mem_distinct
  unfold distinct
  rw [distinctBy_concat, id, hseen]

/-- Of items behind others, those are kept that the others do not have. -/
theorem distinct_append (items rest : List β) : distinct (items ++ rest) =
    distinct items ++ (distinct rest).filter fun item => !items.contains item := by
  induction rest using List.reverseRecOn with
  | nil => simp [distinct, distinctBy]
  | append_singleton rest item ih =>
    rw [← List.append_assoc, distinct_concat, distinct_concat, ih]
    by_cases hitems : items.contains item
    · have hall : (items ++ rest).contains item = true := by simp_all
      rw [if_pos hall]
      split
      · rfl
      · rw [List.filter_append, List.filter_cons_of_neg (by simp_all), List.filter_nil,
          List.append_nil]
    · by_cases hrest : rest.contains item
      · have hall : (items ++ rest).contains item = true := by simp_all
        rw [if_pos hall, if_pos hrest]
      · have hall : ¬(items ++ rest).contains item = true := by simp_all
        rw [if_neg hall, if_neg hrest]
        rw [List.filter_append, List.filter_cons_of_pos (by simp_all), List.filter_nil,
          List.append_assoc]

theorem distinct_append_of_subset (h : rest ⊆ items) :
    distinct (items ++ rest) = distinct items := by
  have hnone : (distinct rest).filter (fun item => !items.contains item) = [] := by
    refine List.filter_eq_nil_iff.mpr fun item hitem => ?_
    have hmem : item ∈ items := h (mem_distinct.mp hitem)
    simpa using hmem
  rw [distinct_append, hnone, List.append_nil]

theorem contains_eq_of_distinct (h : distinct first = distinct second) (item : β) :
    first.contains item = second.contains item := by
  rw [Bool.eq_iff_iff, List.contains_iff_mem, List.contains_iff_mem, ← mem_distinct, h,
    mem_distinct]

theorem distinct_append_congr {firstRest secondRest : List β} (h : distinct first = distinct second)
    (hrest : distinct firstRest = distinct secondRest) :
    distinct (first ++ firstRest) = distinct (second ++ secondRest) := by
  rw [distinct_append, distinct_append, h, hrest]
  simp only [contains_eq_of_distinct h]

@[simp] theorem distinct_distinct (items : List β) : distinct (distinct items) = distinct items := by
  induction items using List.reverseRecOn with
  | nil => rfl
  | append_singleton items item ih =>
    rw [distinct_concat]
    split
    · exact ih
    · next hnew =>
      have hnew' : ¬(distinct items).contains item = true := by
        rwa [contains_eq_of_distinct ih]
      rw [distinct_concat, if_neg hnew', ih]

/-- What comes of a repetition is a repetition. -/
theorem distinct_flatMap_distinct (items : List β) (make : β → List γ) :
    distinct ((distinct items).flatMap make) = distinct (items.flatMap make) := by
  induction items using List.reverseRecOn with
  | nil => rfl
  | append_singleton items item ih =>
    rw [distinct_concat, List.flatMap_append, List.flatMap_singleton]
    split
    · next hseen =>
      have hmade : make item ⊆ items.flatMap make := fun made hmade =>
        List.mem_flatMap.mpr ⟨item, List.contains_iff_mem.mp hseen, hmade⟩
      rw [ih, distinct_append_of_subset hmade]
    · rw [List.flatMap_append, List.flatMap_singleton]
      exact distinct_append_congr ih rfl

theorem distinct_flatMap_congr {make other : β → List γ} (h : distinct first = distinct second)
    (hmake : ∀ item, distinct (make item) = distinct (other item)) :
    distinct (first.flatMap make) = distinct (second.flatMap other) := by
  have hsecond : distinct (second.flatMap make) = distinct (second.flatMap other) := by
    clear h
    induction second with
    | nil => rfl
    | cons item rest ih =>
      rw [List.flatMap_cons, List.flatMap_cons]
      exact distinct_append_congr (hmake item) ih
  calc distinct (first.flatMap make)
    _ = distinct ((distinct first).flatMap make) := (distinct_flatMap_distinct first make).symm
    _ = distinct (second.flatMap make) := by rw [h, distinct_flatMap_distinct]
    _ = distinct (second.flatMap other) := hsecond

theorem distinct_map_congr (h : distinct first = distinct second) (make : β → γ) :
    distinct (first.map make) = distinct (second.map make) := by
  rw [List.map_eq_flatMap, List.map_eq_flatMap]
  exact distinct_flatMap_congr h fun _ => rfl

theorem distinct_filterMap_congr (h : distinct first = distinct second) (make : β → Option γ) :
    distinct (first.filterMap make) = distinct (second.filterMap make) := by
  rw [List.filterMap_eq_flatMap_toList, List.filterMap_eq_flatMap_toList]
  exact distinct_flatMap_congr h fun _ => rfl

theorem eq_nil_of_distinct_eq (h : distinct first = distinct second) (hempty : first = []) :
    second = [] := by
  refine List.eq_nil_iff_forall_not_mem.mpr fun item hitem => ?_
  rw [← mem_distinct, ← h, mem_distinct, hempty] at hitem
  exact List.not_mem_nil hitem

end Order

end Phrasebook
