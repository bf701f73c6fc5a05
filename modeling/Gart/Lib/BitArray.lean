import Gart.Lib.ByteMemory

/-!
# Bits in byte memory

Bit `i` of a bit array at the start of a memory is bit `i % 8` of byte `i / 8`.
-/

namespace Gart.BitArray
open Gart.ByteMemory

/-- The byte with bit `i % 8` only. -/
def bitMask (i : Nat) : UInt8 := 1 <<< UInt8.ofNat (i % 8)

def getBit (m : Memory) (i : Nat) : Bool := (m (i / 8) &&& bitMask i) != 0

def setBit (m : Memory) (i : Nat) : Memory := fun x =>
  if x = i / 8 then m x ||| bitMask i else m x

def resetBit (m : Memory) (i : Nat) : Memory := fun x =>
  if x = i / 8 then m x &&& ~~~bitMask i else m x

/-- Bit `i` becomes `v`. -/
def putBit (m : Memory) (i : Nat) (v : Bool) : Memory := if v then setBit m i else resetBit m i

/-- The bits from `i` on become `vs`. -/
def putBits (m : Memory) (i : Nat) : List Bool → Memory
  | [] => m
  | v :: vs => putBits (putBit m i v) (i + 1) vs

/-! ### One bit -/

theorem getLsbD_bitMask (i : Nat) {k : Nat} (hk : k < 8) :
    (bitMask i).toBitVec.getLsbD k = decide (k = i % 8) := by
  have hi : i % 8 < 8 := Nat.mod_lt _ (by decide)
  unfold bitMask
  generalize i % 8 = j at hi
  revert j k
  decide

theorem getBit_eq (m : Memory) (i : Nat) : getBit m i = (m (i / 8)).toBitVec.getLsbD (i % 8) := by
  have hi : i % 8 < 8 := Nat.mod_lt _ (by decide)
  unfold getBit
  generalize m (i / 8) = b
  cases hbit : b.toBitVec.getLsbD (i % 8) with
  | false =>
    have hzero : b &&& bitMask i = 0 := by
      apply UInt8.toBitVec_inj.mp
      apply BitVec.eq_of_getLsbD_eq
      intro k hk
      rw [UInt8.toBitVec_and, BitVec.getLsbD_and, getLsbD_bitMask i hk]
      by_cases hki : k = i % 8
      · simp [hki, hbit]
      · simp [hki]
    rw [hzero]
    rfl
  | true =>
    rw [bne_iff_ne]
    intro hzero
    have hget := congrArg (fun c : UInt8 => c.toBitVec.getLsbD (i % 8)) hzero
    simp only [UInt8.toBitVec_and, BitVec.getLsbD_and, getLsbD_bitMask i hi, hbit] at hget
    simp at hget

section one
variable {m m' : Memory} {i j x : Nat} {v : Bool}

theorem getBit_congr (h : m (i / 8) = m' (i / 8)) : getBit m i = getBit m' i := by
  unfold getBit
  rw [h]

theorem putBit_outside (h : x ≠ i / 8) : putBit m i v x = m x := by
  unfold putBit
  cases v with
  | false => exact if_neg h
  | true => exact if_neg h

theorem getBit_putBit : getBit (putBit m i v) j = if j = i then v else getBit m j := by
  have hj : j % 8 < 8 := Nat.mod_lt _ (by decide)
  by_cases hbyte : j / 8 = i / 8
  · have hiff : j % 8 = i % 8 ↔ j = i := by omega
    have hrem : (i / 8 * 8 + j % 8) % 8 = j % 8 := by omega
    rw [getBit_eq, getBit_eq]
    unfold putBit
    cases v with
    | false =>
      rw [if_neg (by decide)]
      show (if j / 8 = i / 8 then m (j / 8) &&& ~~~bitMask i else m (j / 8)).toBitVec.getLsbD (j % 8) = _
      rw [if_pos hbyte, UInt8.toBitVec_and, UInt8.toBitVec_not, BitVec.getLsbD_and, BitVec.getLsbD_not,
        getLsbD_bitMask i hj]
      by_cases hsame : j = i
      · simp [hsame]
      · simp [hsame, hiff, hj]
    | true =>
      rw [if_pos rfl]
      show (if j / 8 = i / 8 then m (j / 8) ||| bitMask i else m (j / 8)).toBitVec.getLsbD (j % 8) = _
      rw [if_pos hbyte, UInt8.toBitVec_or, BitVec.getLsbD_or, getLsbD_bitMask i hj]
      by_cases hsame : j = i
      · simp [hsame]
      · simp [hsame, hiff]
  · have hne : j ≠ i := fun h => hbyte (by rw [h])
    rw [if_neg hne]
    exact getBit_congr (putBit_outside hbyte)

end one

/-! ### Several bits -/

theorem getBit_putBits (vs : List Bool) (m : Memory) (i j : Nat) :
    getBit (putBits m i vs) j =
      if i ≤ j ∧ j < i + vs.length then vs.getD (j - i) false else getBit m j := by
  induction vs generalizing m i with
  | nil =>
    rw [if_neg (by simp)]
    rfl
  | cons v vs ih =>
    show getBit (putBits (putBit m i v) (i + 1) vs) j = _
    rw [ih, getBit_putBit, List.length_cons]
    rcases Nat.lt_trichotomy j i with hlt | rfl | hgt
    · rw [if_neg (by omega), if_neg (by omega), if_neg (by omega)]
    · rw [if_neg (by omega), if_pos rfl, if_pos (by omega), Nat.sub_self]
      rfl
    · have hsub : j - i = j - (i + 1) + 1 := by omega
      by_cases hin : j < i + 1 + vs.length
      · rw [if_pos (by omega), if_pos (by omega), hsub]
        rfl
      · rw [if_neg (by omega), if_neg (by omega), if_neg (by omega)]

theorem putBits_outside {vs : List Bool} {m : Memory} {i x : Nat}
    (h : ∀ k < vs.length, x ≠ (i + k) / 8) : putBits m i vs x = m x := by
  induction vs generalizing m i with
  | nil => rfl
  | cons v vs ih =>
    show putBits (putBit m i v) (i + 1) vs x = _
    have hfirst : x ≠ i / 8 := h 0 (Nat.zero_lt_succ _)
    rw [ih, putBit_outside hfirst]
    intro k hk
    have hne := h (k + 1) (Nat.succ_lt_succ hk)
    have hidx : i + 1 + k = i + (k + 1) := by omega
    rw [hidx]
    exact hne

end Gart.BitArray
