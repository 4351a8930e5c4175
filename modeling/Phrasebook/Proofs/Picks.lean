import Mathlib.Data.List.Nodup
import Mathlib.Data.List.Perm.Basic
import Phrasebook.Random.Subset

/-! Random choices of indices. In whichever way indices are chosen, and whatever the random source
draws, they are different, below the length and as many as asked for. -/

namespace Phrasebook

namespace Subset

/-- A choice of so many different indices below a length. -/
structure Picks (length count : Nat) (chosen : List Nat) : Prop where
  nodup : chosen.Nodup
  lt : ∀ place ∈ chosen, place < length
  length_eq : chosen.length = count

variable {Source : Type} [RandomSource Source]

/-- Swaps lose no index and double none. -/
theorem shuffle_perm {length : Nat} (place : Nat) (indices : Vector Nat length) (source : Source)
    (count : Nat) : (shuffle place indices source count).1.toList.Perm indices.toList := by
  induction count generalizing place indices source with
  | zero => exact .refl _
  | succ count ih =>
    unfold shuffle
    split
    · exact (ih _ _ _).trans (Vector.perm_iff_toList_perm.mp (Vector.swap_perm _ _))
    · exact .refl _

theorem picks_shuffled {length count : Nat} (h : count ≤ length) (source : Source) :
    Picks length count (shuffled length count source).1 := by
  have hperm := shuffle_perm 0 (Vector.range length) source count
  rw [Vector.toList_range] at hperm
  have hfront := List.take_sublist count (shuffle 0 (Vector.range length) source count).1.toList
  refine ⟨hfront.nodup (hperm.nodup_iff.mpr List.nodup_range), fun place hplace => ?_, ?_⟩
  · exact List.mem_range.mp (hperm.mem_iff.mp (hfront.subset hplace))
  · show (List.take count _).length = count
    rw [List.length_take, hperm.length_eq, List.length_range]
    exact Nat.min_eq_left h

/-- Where all indices are below `last`, it can stand in for an index that was drawn before. -/
theorem Picks.exists_addUpTo {last count : Nat} {state : List Nat × Source}
    (h : Picks last count state.1) : ∃ next, next ∉ state.1 ∧ next < last + 1 ∧
      (addUpTo last state).1 = next :: state.1 := by
  unfold Subset.addUpTo
  dsimp only
  generalize (RandomSource.index (last + 1) (Nat.succ_pos last) state.2).1 = drawn
  split
  · exact ⟨last, fun hmem => Nat.lt_irrefl last (h.lt last hmem), Nat.lt_succ_self last, rfl⟩
  · next hnew =>
    rw [List.contains_iff_mem] at hnew
    exact ⟨drawn, hnew, drawn.isLt, rfl⟩

theorem Picks.addUpTo {last count : Nat} {state : List Nat × Source}
    (h : Picks last count state.1) : Picks (last + 1) (count + 1) (addUpTo last state).1 := by
  obtain ⟨next, hnew, hnext, hadded⟩ := h.exists_addUpTo
  rw [hadded]
  refine ⟨List.nodup_cons.mpr ⟨hnew, h.nodup⟩, List.forall_mem_cons.mpr ⟨hnext, ?_⟩, ?_⟩
  · exact fun place hplace => Nat.lt_succ_of_lt (h.lt place hplace)
  · rw [List.length_cons, h.length_eq]

theorem Picks.foldl_addUpTo {first held : Nat} (count : Nat) {state : List Nat × Source}
    (h : Picks first held state.1) : Picks (first + count) (held + count)
      ((List.range' first count).foldl (fun state last => Subset.addUpTo last state) state).1 := by
  induction count generalizing first held state with
  | zero => exact h
  | succ count ih =>
    rw [List.range'_succ, List.foldl_cons]
    have hrest := ih h.addUpTo
    rwa [Nat.add_right_comm, Nat.add_right_comm held] at hrest

theorem picks_collected {length count : Nat} (h : count ≤ length) (source : Source) :
    Picks length count (collected length count source).1 := by
  have hnone : Picks (length - count) 0 (([] : List Nat), source).1 := ⟨.nil, nofun, rfl⟩
  have hall := hnone.foldl_addUpTo count
  rwa [Nat.sub_add_cancel h, Nat.zero_add] at hall

theorem picks_choose {length count : Nat} (h : count ≤ length) (source : Source) :
    Picks length count (choose length count source).1 := by
  unfold choose
  split
  · exact picks_shuffled h source
  · exact picks_collected h source

end Subset

end Phrasebook
