import Mathlib.Data.Nat.Bitwise
import Mathlib.Data.Nat.Notation
import Mathlib.Logic.Function.Basic

/-!
# Bits packed into words

A set of numbers is kept in an array of 64-bit words, the number `i` as bit `i % 64` of word
`i / 64`. Inserting a number is one "or" on one word, so insertions commute.
-/

namespace Bitset

/-- The word of a number. -/
def wordIdx (index : ℕ) : ℕ := index / 64

/-- The bit of a number in its word, `1 << (index % 64)`. -/
def mask (index : ℕ) : UInt64 := 1 <<< UInt64.ofNat (index % 64)

/-- Insert a number. -/
def insert (words : ℕ → UInt64) (index : ℕ) : ℕ → UInt64 :=
  Function.update words (wordIdx index) (words (wordIdx index) ||| mask index)

/-- Whether a word has the bit of a number. -/
def wordHas (word : UInt64) (index : ℕ) : Bool := word &&& mask index != 0

/-- Whether a number is in the set. -/
def contains (words : ℕ → UInt64) (index : ℕ) : Bool := wordHas (words (wordIdx index)) index

variable {words : ℕ → UInt64} {i j : ℕ}

theorem toNat_mask (i : ℕ) : (mask i).toNat = 2 ^ (i % 64) := by
  have hbit : i % 64 < 64 := Nat.mod_lt i (by decide)
  have hsmall : i % 64 < 2 ^ 64 := hbit.trans (by decide)
  have hpow : 2 ^ (i % 64) < 2 ^ 64 := Nat.pow_lt_pow_right (by decide) hbit
  rw [mask, UInt64.toNat_shiftLeft, UInt64.toNat_ofNat_of_lt' hsmall, Nat.mod_eq_of_lt hbit,
    UInt64.toNat_one, Nat.one_shiftLeft, Nat.mod_eq_of_lt hpow]

/-- The mask picks out one bit. -/
theorem wordHas_eq (word : UInt64) (i : ℕ) : wordHas word i = word.toNat.testBit (i % 64) := by
  have hne : (word &&& mask i ≠ 0) ↔ word.toNat.testBit (i % 64) = true := by
    rw [Ne, ← UInt64.toNat_inj, UInt64.toNat_and, toNat_mask, Nat.and_two_pow, UInt64.toNat_zero,
      Nat.mul_eq_zero]
    cases word.toNat.testBit (i % 64) <;> simp
  rw [Bool.eq_iff_iff, wordHas, bne_iff_ne]
  exact hne

theorem contains_empty (i : ℕ) : contains (fun _ ↦ 0) i = false := by
  rw [contains, wordHas_eq]
  exact Nat.zero_testBit _

theorem contains_insert :
    contains (insert words i) j = true ↔ j = i ∨ contains words j = true := by
  rw [contains, contains, insert, wordHas_eq, wordHas_eq]
  by_cases hword : wordIdx j = wordIdx i
  · have hindex : i % 64 = j % 64 ↔ j = i := by
      rw [wordIdx, wordIdx] at hword
      omega
    rw [hword, Function.update_self, UInt64.toNat_or, toNat_mask, Nat.testBit_or,
      Nat.testBit_two_pow, Bool.or_eq_true, decide_eq_true_eq, hindex]
    exact or_comm
  · have hne : j ≠ i := by
      rintro rfl
      exact hword rfl
    rw [Function.update_of_ne hword]
    exact (or_iff_right hne).symm

/-- Insertions commute. -/
theorem insert_comm : insert (insert words i) j = insert (insert words j) i := by
  funext k
  rw [insert, insert, insert, insert, Function.update_apply, Function.update_apply,
    Function.update_apply, Function.update_apply, Function.update_apply, Function.update_apply]
  by_cases hij : wordIdx i = wordIdx j
  · by_cases hk : k = wordIdx j
    · simp only [hij, hk, if_true]
      rw [UInt64.or_assoc, UInt64.or_comm (mask i), UInt64.or_assoc]
    · simp only [hij, hk, if_false]
  · by_cases hk : k = wordIdx i
    · simp only [hk, hij, Ne.symm hij, if_true, if_false]
    · simp only [hk, Ne.symm hij, if_false]

end Bitset
