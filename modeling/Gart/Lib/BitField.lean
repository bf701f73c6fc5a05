import Mathlib.Data.Nat.Bitwise

/-!
# Bit fields

A field of `w` bits from bit `lo` on, kept with a mask and shifts. What is placed
in a field is extracted from it again, and fields that do not overlap do not
disturb each other.
-/

namespace Gart.BitField

def mask (lo w : Nat) : Nat := (2 ^ w - 1) <<< lo

/-- `x` moved into the field. -/
def place (lo w x : Nat) : Nat := (x <<< lo) &&& mask lo w

def extract (lo w x : Nat) : Nat := (x &&& mask lo w) >>> lo

variable {lo w lo' w' x y i : Nat}

theorem testBit_mask : (mask lo w).testBit i = (decide (lo ≤ i) && decide (i < lo + w)) := by
  simp only [mask, Nat.testBit_shiftLeft, Nat.testBit_two_pow_sub_one]
  by_cases hlo : lo ≤ i
  · have hiff : i - lo < w ↔ i < lo + w := by omega
    simp only [ge_iff_le, hlo, decide_true, Bool.true_and, hiff]
  · simp only [ge_iff_le, hlo, decide_false, Bool.false_and]

theorem testBit_place : (place lo w x).testBit i =
    (decide (lo ≤ i) && decide (i < lo + w) && x.testBit (i - lo)) := by
  simp only [place, Nat.testBit_and, Nat.testBit_shiftLeft, testBit_mask]
  cases decide (lo ≤ i) <;> simp [Bool.and_comm]

theorem testBit_extract :
    (extract lo w x).testBit i = (decide (i < w) && x.testBit (lo + i)) := by
  simp only [extract, Nat.testBit_shiftRight, Nat.testBit_and, testBit_mask]
  have hlo : lo ≤ lo + i := by omega
  have hiff : lo + i < lo + w ↔ i < w := by omega
  simp only [hlo, decide_true, Bool.true_and, hiff, Bool.and_comm]

theorem extract_or : extract lo w (x ||| y) = extract lo w x ||| extract lo w y := by
  apply Nat.eq_of_testBit_eq
  intro i
  simp only [testBit_extract, Nat.testBit_or, Bool.and_or_distrib_left]

theorem extract_place (h : x < 2 ^ w) : extract lo w (place lo w x) = x := by
  apply Nat.eq_of_testBit_eq
  intro i
  simp only [testBit_extract, testBit_place, Nat.add_sub_cancel_left]
  by_cases hi : i < w
  · simp [hi]
  · have hbit : x.testBit i = false :=
      Nat.testBit_lt_two_pow (Nat.lt_of_lt_of_le h (Nat.pow_le_pow_right (by decide) (by omega)))
    simp [hi, hbit]

theorem extract_place_of_disjoint (h : lo + w ≤ lo' ∨ lo' + w' ≤ lo) :
    extract lo w (place lo' w' x) = 0 := by
  apply Nat.eq_of_testBit_eq
  intro i
  simp only [testBit_extract, testBit_place, Nat.zero_testBit]
  by_cases hi : i < w
  · rcases h with hlow | hhigh
    · have hout : ¬lo' ≤ lo + i := by omega
      simp [hout]
    · have hout : ¬lo + i < lo' + w' := by omega
      simp [hout]
  · simp [hi]

theorem place_extract : place lo w (extract lo w x) = x &&& mask lo w := by
  apply Nat.eq_of_testBit_eq
  intro i
  simp only [testBit_place, testBit_extract, Nat.testBit_and, testBit_mask]
  by_cases hlo : lo ≤ i
  · by_cases hi : i < lo + w
    · have hin : i - lo < w := by omega
      have hat : lo + (i - lo) = i := by omega
      simp [hlo, hi, hin, hat]
    · simp [hi]
  · simp [hlo]

theorem place_and_mask_of_disjoint (h : lo + w ≤ lo') : place lo w x &&& mask lo' w' = 0 := by
  apply Nat.eq_of_testBit_eq
  intro i
  simp only [Nat.testBit_and, testBit_place, testBit_mask, Nat.zero_testBit]
  by_cases hi : i < lo + w
  · have hout : ¬lo' ≤ i := by omega
    simp [hout]
  · simp [hi]

theorem place_and_mask_of_le (hlo : lo' ≤ lo) (hhi : lo + w ≤ lo' + w') :
    place lo w x &&& mask lo' w' = place lo w x := by
  apply Nat.eq_of_testBit_eq
  intro i
  simp only [Nat.testBit_and, testBit_place, testBit_mask]
  by_cases hi : lo ≤ i ∧ i < lo + w
  · have hin : lo' ≤ i ∧ i < lo' + w' := by omega
    simp [hin]
  · rcases not_and_or.mp hi with h | h
    · simp [h]
    · simp [h]

theorem extract_lt : extract lo w x < 2 ^ w := by
  apply Nat.lt_pow_two_of_testBit
  intro i hi
  rw [testBit_extract]
  simp [Nat.not_lt.mpr hi]

theorem place_lt (h : lo + w ≤ w') : place lo w x < 2 ^ w' := by
  apply Nat.lt_pow_two_of_testBit
  intro i hi
  rw [testBit_place]
  have hout : ¬i < lo + w := by omega
  simp [hout]

end Gart.BitField
