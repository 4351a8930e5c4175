import Mathlib.Logic.ExistsUnique
import Mathlib.Logic.Function.Basic
import Phrasebook.Random.Seed

/-! Derived seeds do not collide. Every step adds something to a seed bit by bit and multiplies by
an odd number, and both can be undone modulo 2^64; so a difference that came in once, in the seed,
in the number of the attempt or in a byte of the name, is never lost. -/

namespace Phrasebook.Seed

/-- What is multiplied by a number that has an inverse can be told. -/
theorem injective_mul_of_inverse (number inverse : UInt64) (h : number * inverse = 1) :
    Function.Injective (· * number) := by
  have hundo : Function.LeftInverse (· * inverse) (· * number) := fun seed => by
    show seed * number * inverse = seed
    rw [UInt64.mul_assoc, h, UInt64.mul_one]
  exact hundo.injective

theorem injective_mul_factor : Function.Injective (· * factor) :=
  injective_mul_of_inverse factor 0xce965057aff6957b (by decide)

/-- The number by which attempts are multiplied is odd as well. -/
theorem injective_mul_spread : Function.Injective (· * (0x9e3779b97f4a7c15 : UInt64)) :=
  injective_mul_of_inverse 0x9e3779b97f4a7c15 0xf1de83e19937733d (by decide)

/-! ### Attempts -/

theorem injective_ofAttempt (seed : UInt64) : Function.Injective (ofAttempt seed) := by
  intro attempt other h
  have hxor := injective_mul_factor h
  exact injective_mul_spread ((UInt64.xor_right_inj seed).mp hxor)

theorem injective_ofAttempt_seed (attempt : UInt64) : Function.Injective (ofAttempt · attempt) := by
  intro seed other h
  exact (UInt64.xor_left_inj _).mp (injective_mul_factor h)

/-! ### Names -/

theorem addByte_inj {seed other : UInt64} {byte : UInt8} :
    addByte seed byte = addByte other byte ↔ seed = other := by
  constructor
  · intro h
    exact (UInt64.xor_left_inj _).mp (injective_mul_factor h)
  · exact congrArg (addByte · byte)

theorem injective_addByte (seed : UInt64) : Function.Injective (addByte seed) := by
  intro byte other h
  have hxor := injective_mul_factor h
  exact UInt8.toUInt64_inj.mp ((UInt64.xor_right_inj seed).mp hxor)

/-- Bytes that are taken into different seeds leave them different. -/
theorem foldl_addByte_inj {seed other : UInt64} (bytes : List UInt8) :
    bytes.foldl addByte seed = bytes.foldl addByte other ↔ seed = other := by
  induction bytes generalizing seed other with
  | nil => rfl
  | cons byte rest ih => rw [List.foldl_cons, List.foldl_cons, ih, addByte_inj]

/-- Where two lists of bytes part, the seeds part, and they stay apart where no other byte
differs. -/
theorem foldl_addByte_ne {bytes others : List UInt8} (seed : UInt64)
    (hlength : bytes.length = others.length)
    (hone : ∃! place : Nat, bytes[place]? ≠ others[place]?) :
    bytes.foldl addByte seed ≠ others.foldl addByte seed := by
  obtain ⟨place, hplace, hunique⟩ := hone
  induction bytes generalizing others seed place with
  | nil =>
    obtain rfl := List.length_eq_zero_iff.mp hlength.symm
    exact (hplace rfl).elim
  | cons byte rest ih =>
    obtain ⟨other, others, rfl⟩ := List.exists_cons_of_length_eq_add_one hlength.symm
    rw [List.foldl_cons, List.foldl_cons]
    cases place with
    | zero =>
      have hsame : rest = others := by
        refine List.ext_getElem? fun behind => not_not.mp fun hdiffers => ?_
        exact Nat.succ_ne_zero behind (hunique (behind + 1) hdiffers)
      rw [hsame, Ne, foldl_addByte_inj, (injective_addByte seed).eq_iff]
      simpa using hplace
    | succ place =>
      have hsame : byte = other := by
        refine not_not.mp fun hdiffers => ?_
        exact Nat.succ_ne_zero place (hunique 0 (by simpa using hdiffers)).symm
      rw [hsame]
      refine ih _ (Nat.succ.inj hlength) place hplace fun behind hdiffers => ?_
      exact Nat.succ.inj (hunique (behind + 1) hdiffers)

theorem injective_ofName_seed (name : String) : Function.Injective (ofName · name) := by
  intro seed other h
  exact (UInt64.xor_left_inj _).mp ((foldl_addByte_inj _).mp h)

/-- Seeds derived from one seed differ for different attempts, seeds derived from different seeds
differ for one attempt and for one name, and seeds derived from one seed differ for names of one
length that differ in a single byte. -/
theorem derived_ne :
    (∀ seed, Function.Injective (ofAttempt seed)) ∧
    (∀ attempt, Function.Injective (ofAttempt · attempt)) ∧
    (∀ name, Function.Injective (ofName · name)) ∧
    ∀ (seed : UInt64) (name other : String), name.toUTF8.size = other.toUTF8.size →
      (∃! place : Nat, name.toUTF8.data[place]? ≠ other.toUTF8.data[place]?) →
      ofName seed name ≠ ofName seed other := by
  refine ⟨injective_ofAttempt, injective_ofAttempt_seed, injective_ofName_seed,
    fun seed name other hsize hone => foldl_addByte_ne _ hsize ?_⟩
  simpa only [Array.getElem?_toList] using hone

theorem ofName_greet_ne_great : ofName 42 "greet" ≠ ofName 42 "great" := by
  obtain ⟨-, -, -, hne⟩ := derived_ne
  refine hne 42 "greet" "great" (by decide +kernel) ⟨3, by decide +kernel, fun place hplace => ?_⟩
  have hgreet : "greet".toUTF8.data = #[103, 114, 101, 101, 116] := by decide +kernel
  have hgreat : "great".toUTF8.data = #[103, 114, 101, 97, 116] := by decide +kernel
  dsimp only at hplace
  rw [hgreet, hgreat] at hplace
  match place with
  | 0 | 1 | 2 | 4 => exact (hplace rfl).elim
  | 3 => rfl
  | _ + 5 => exact (hplace rfl).elim

end Phrasebook.Seed
