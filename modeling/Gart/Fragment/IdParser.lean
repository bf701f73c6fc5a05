import Gart.Lib.BitField

/-!
# Vertex identifiers

`vegito/include/fragment/id_parser.h` with 64-bit identifiers: from the low end a
fragment number, an offset and a label, and a top bit that is never set.
-/

namespace Gart.Fragment
open Gart.BitField

def maxVlabels : Nat := 128

/-- `num_to_bitwidth` (`id_parser.h:27-38`); the loop counts the bits of `num - 1`. -/
def numToBitwidth (num : Nat) : Nat := if num ≤ 2 then 1 else Nat.log2 (num - 1) + 1

theorem numToBitwidth_pos {num : Nat} : 0 < numToBitwidth num := by
  unfold numToBitwidth
  split
  · exact Nat.one_pos
  · exact Nat.succ_pos _

/-- What `IdParser::Init` keeps (`id_parser.h:41-110`). -/
structure IdParser where
  offsetOffset : Nat
  labelIdOffset : Nat
  fidMask : Nat
  lidMask : Nat
  labelIdMask : Nat
  offsetMask : Nat
  offsetWidth : Nat
  deriving DecidableEq

namespace IdParser

def labelWidth : Nat := numToBitwidth maxVlabels

/-- `IdParser::Init` (`id_parser.h:49-66`) -/
def init (fnum : Nat) : IdParser :=
  let fidWidth := numToBitwidth fnum
  let offsetWidth := 64 - fidWidth - labelWidth - 1
  let labelIdOffset := 64 - labelWidth - 1
  { offsetOffset := fidWidth
    labelIdOffset := labelIdOffset
    fidMask := mask 0 fidWidth
    lidMask := mask fidWidth (64 - fidWidth - 1)
    labelIdMask := mask labelIdOffset labelWidth
    offsetMask := mask fidWidth offsetWidth
    offsetWidth := offsetWidth }

/-- `IdParser::GetFid` (`id_parser.h:68`) -/
def getFid (p : IdParser) (v : Nat) : Nat := v &&& p.fidMask

/-- `IdParser::GetLabelId` (`id_parser.h:70-72`) -/
def getLabelId (p : IdParser) (v : Nat) : Nat := (v &&& p.labelIdMask) >>> p.labelIdOffset

/-- `IdParser::GetOffset` (`id_parser.h:74-76`) -/
def getOffset (p : IdParser) (v : Nat) : Nat := (v &&& p.offsetMask) >>> p.offsetOffset

/-- `IdParser::GetLid` (`id_parser.h:78`) -/
def getLid (p : IdParser) (v : Nat) : Nat := v &&& p.lidMask

/-- `IdParser::GenerateId` (`id_parser.h:80-84`) -/
def generateId (p : IdParser) (fid label offset : Nat) : Nat :=
  (fid &&& p.fidMask) ||| ((offset <<< p.offsetOffset) &&& p.offsetMask) |||
    ((label <<< p.labelIdOffset) &&& p.labelIdMask)

/-- `IdParser::GenerateDeletedId` (`id_parser.h:86-90`) -/
def generateDeletedId (_p : IdParser) (offset : Nat) : Nat := offset ||| 2 ^ 63

/-! ### The fields of an identifier -/

variable {fnum fid label offset : Nat}

theorem labelWidth_eq : labelWidth = 7 := by decide

theorem generateId_eq : (init fnum).generateId fid label offset =
    place 0 (numToBitwidth fnum) fid ||| place (numToBitwidth fnum) (init fnum).offsetWidth offset |||
      place 56 7 label := rfl

theorem offsetWidth_eq (hf : numToBitwidth fnum ≤ 56) :
    (init fnum).offsetWidth = 56 - numToBitwidth fnum := by
  show 64 - numToBitwidth fnum - labelWidth - 1 = _
  rw [labelWidth_eq]
  omega

theorem generateId_lt (hf : numToBitwidth fnum ≤ 56) :
    (init fnum).generateId fid label offset < 2 ^ 63 := by
  rw [generateId_eq, offsetWidth_eq hf]
  apply Nat.or_lt_two_pow
  · apply Nat.or_lt_two_pow
    · exact place_lt (by omega)
    · exact place_lt (by omega)
  · exact place_lt (by decide)

theorem getOffset_generateId (hf : numToBitwidth fnum ≤ 56)
    (ho : offset < 2 ^ (56 - numToBitwidth fnum)) :
    (init fnum).getOffset ((init fnum).generateId fid label offset) = offset := by
  have hwidth := offsetWidth_eq hf
  show extract (numToBitwidth fnum) (init fnum).offsetWidth _ = offset
  rw [generateId_eq, hwidth, extract_or, extract_or, extract_place ho,
    extract_place_of_disjoint (by omega), extract_place_of_disjoint (by omega)]
  simp

theorem getFid_generateId (hf : numToBitwidth fnum ≤ 56) (hfid : fid < 2 ^ numToBitwidth fnum) :
    (init fnum).getFid ((init fnum).generateId fid label offset) = fid := by
  show _ &&& mask 0 (numToBitwidth fnum) = fid
  have hextract : ∀ x, x &&& mask 0 (numToBitwidth fnum) = extract 0 (numToBitwidth fnum) x :=
    fun _ => rfl
  rw [hextract, generateId_eq, offsetWidth_eq hf, extract_or, extract_or, extract_place hfid,
    extract_place_of_disjoint (by omega), extract_place_of_disjoint (by omega)]
  simp

theorem getLabelId_generateId (hf : numToBitwidth fnum ≤ 56) (hlabel : label < maxVlabels) :
    (init fnum).getLabelId ((init fnum).generateId fid label offset) = label := by
  show extract 56 7 _ = label
  have hlt : label < 2 ^ 7 := hlabel
  rw [generateId_eq, offsetWidth_eq hf, extract_or, extract_or, extract_place hlt,
    extract_place_of_disjoint (by omega), extract_place_of_disjoint (by omega)]
  simp

theorem getLid_generateId (hf : numToBitwidth fnum ≤ 56) :
    (init fnum).getLid ((init fnum).generateId fid label offset) = (init fnum).generateId 0 label offset := by
  have hwidth := offsetWidth_eq hf
  have hlid : (init fnum).lidMask = mask (numToBitwidth fnum) (64 - numToBitwidth fnum - 1) := rfl
  have hzero : place 0 (numToBitwidth fnum) 0 = 0 := by
    unfold place
    rw [Nat.zero_shiftLeft, Nat.zero_and]
  unfold getLid
  rw [hlid, generateId_eq, generateId_eq, hwidth, Nat.and_or_distrib_right, Nat.and_or_distrib_right,
    place_and_mask_of_disjoint (by omega), place_and_mask_of_le (by omega) (by omega),
    place_and_mask_of_le (by omega) (by omega), hzero]

theorem generateId_fields {v : Nat} (hf : numToBitwidth fnum ≤ 56) (hv : v < 2 ^ 63) :
    (init fnum).generateId ((init fnum).getFid v) ((init fnum).getLabelId v) ((init fnum).getOffset v) = v := by
  have hfid : (init fnum).getFid v = extract 0 (numToBitwidth fnum) v := rfl
  have hlabel : (init fnum).getLabelId v = extract 56 7 v := rfl
  have hoffset : (init fnum).getOffset v = extract (numToBitwidth fnum) (init fnum).offsetWidth v := rfl
  rw [generateId_eq, hfid, hlabel, hoffset, offsetWidth_eq hf, place_extract, place_extract, place_extract]
  apply Nat.eq_of_testBit_eq
  intro i
  simp only [Nat.testBit_or, Nat.testBit_and, testBit_mask]
  by_cases hi : i < 63
  · have hin : i < numToBitwidth fnum ∨ (numToBitwidth fnum ≤ i ∧ i < 56) ∨ 56 ≤ i := by omega
    cases v.testBit i with
    | false => simp
    | true =>
      rcases hin with h | ⟨h, h'⟩ | h
      · simp [h]
      · have hend : i < numToBitwidth fnum + (56 - numToBitwidth fnum) := by omega
        simp [h, hend]
      · simp [h, hi]
  · have hbit : v.testBit i = false :=
      Nat.testBit_lt_two_pow (Nat.lt_of_lt_of_le hv (Nat.pow_le_pow_right (by decide) (by omega)))
    simp [hbit]

theorem getLid_fields (hf : numToBitwidth fnum ≤ 56) (v : Nat) :
    (init fnum).getLid v = (init fnum).generateId 0 ((init fnum).getLabelId v) ((init fnum).getOffset v) := by
  have hlid : (init fnum).getLid v = v &&& mask (numToBitwidth fnum) (64 - numToBitwidth fnum - 1) := rfl
  have hlabel : (init fnum).getLabelId v = extract 56 7 v := rfl
  have hoffset : (init fnum).getOffset v = extract (numToBitwidth fnum) (init fnum).offsetWidth v := rfl
  have hzero : place 0 (numToBitwidth fnum) 0 = 0 := by
    unfold place
    rw [Nat.zero_shiftLeft, Nat.zero_and]
  rw [hlid, generateId_eq, hlabel, hoffset, offsetWidth_eq hf, place_extract, place_extract, hzero, Nat.zero_or]
  apply Nat.eq_of_testBit_eq
  intro i
  simp only [Nat.testBit_or, Nat.testBit_and, testBit_mask]
  by_cases hlow : numToBitwidth fnum ≤ i
  · by_cases hmid : i < 56
    · have hend : i < numToBitwidth fnum + (56 - numToBitwidth fnum) := by omega
      have hlast : i < numToBitwidth fnum + (64 - numToBitwidth fnum - 1) := by omega
      have hhigh : ¬ 56 ≤ i := by omega
      simp [hlow, hend, hlast, hhigh]
    · have hend : ¬ i < numToBitwidth fnum + (56 - numToBitwidth fnum) := by omega
      have hlast : i < numToBitwidth fnum + (64 - numToBitwidth fnum - 1) ↔ i < 63 := by omega
      have hhigh : 56 ≤ i := by omega
      simp [hlow, hend, hlast, hhigh]
  · have hhigh : ¬ 56 ≤ i := by omega
    simp [hlow, hhigh]

theorem lt_two_pow_numToBitwidth (h : fid < fnum) : fid < 2 ^ numToBitwidth fnum := by
  unfold numToBitwidth
  split
  · omega
  · have hlt : fnum - 1 < 2 ^ (Nat.log2 (fnum - 1) + 1) := Nat.lt_log2_self
    omega

theorem numToBitwidth_le {w : Nat} (hw : 0 < w) (h : fnum ≤ 2 ^ w) : numToBitwidth fnum ≤ w := by
  unfold numToBitwidth
  split
  · exact hw
  · have hlog : Nat.log2 (fnum - 1) < w := (Nat.log2_lt (by omega)).mpr (by omega)
    exact hlog

end IdParser

end Gart.Fragment
