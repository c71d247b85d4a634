import Mathlib

/-!
# Flags in machine words

A word that packs an address aligned to `2^m` with one-bit flags below it, as a
page-table entry does, is read and written bit by bit: a flag is tested with
`w &&& 2^k`, set with `w ||| 2^k`, and cleared within an `n`-bit word with
`w &&& (2^n - 1 - 2^k)`; the address part is `w / 2^m * 2^m` and the flags part
`w % 2^m`.  Every such operation is described here by the bits of its result
(`Nat.testBit`), so that a fact about a packed word is a fact about each bit, closed by
`Nat.eq_of_testBit_eq`.
-/

set_option autoImplicit false

namespace Bits

/-- A flag is set when `w & 2^k` is not zero. -/
theorem and_two_pow_ne_zero (w k : ℕ) : w &&& 2 ^ k ≠ 0 ↔ w.testBit k = true := by
  rw [Nat.and_two_pow]
  cases w.testBit k <;> simp

/-- Clearing bit `k` of an `n`-bit word. -/
theorem testBit_clear (w : ℕ) {n k : ℕ} (hk : k < n) (j : ℕ) :
    (w &&& (2 ^ n - 1 - 2 ^ k)).testBit j = (w.testBit j && decide (j < n) && decide (j ≠ k)) := by
  have hmask : 2 ^ n - 1 - 2 ^ k = 2 ^ n - (2 ^ k + 1) := by omega
  rw [Nat.testBit_land, hmask, Nat.testBit_two_pow_sub_succ (Nat.pow_lt_pow_right (by norm_num) hk),
    Nat.testBit_two_pow]
  by_cases hj : j = k
  · simp [hj]
  · simp [hj, Ne.symm hj]

/-- The address part of a word: its bits from `m` on. -/
theorem testBit_addr (w m j : ℕ) :
    (w / 2 ^ m * 2 ^ m).testBit j = (decide (m ≤ j) && w.testBit j) := by
  rw [Nat.testBit_mul_two_pow, Nat.testBit_div_two_pow]
  by_cases hj : m ≤ j
  · simp [hj, Nat.sub_add_cancel hj]
  · simp [hj]

/-- An aligned address and flags below the alignment occupy disjoint bits. -/
theorem testBit_or_low {a f m : ℕ} (ha : a % 2 ^ m = 0) (hf : f < 2 ^ m) (j : ℕ) :
    (a ||| f).testBit j = if j < m then f.testBit j else a.testBit j := by
  rw [Nat.testBit_lor]
  split_ifs with hj
  · have : a.testBit j = false := by
      have ha' : a = a / 2 ^ m * 2 ^ m := (Nat.div_mul_cancel (Nat.dvd_of_mod_eq_zero ha)).symm
      rw [ha', Nat.testBit_mul_two_pow]
      simp [Nat.not_le.mpr hj]
    simp [this]
  · have : f.testBit j = false :=
      Nat.testBit_lt_two_pow (lt_of_lt_of_le hf (Nat.pow_le_pow_right (by norm_num) (by omega)))
    simp [this]

end Bits
