import Gart.Fragment.IdParser

/-!
# Identifiers in machine words

`IdParser` is a template: the converter has it for `int64_t`, the store and the fragments for
`uint64_t`. Both compute the identifiers of `IdParser` in 64-bit words, and no shift of the
signed one overflows.
-/

namespace Gart.Fragment
open Gart.BitField

/-- The loop of `num_to_bitwidth`. -/
def widthLoop (max width : Nat) : Nat :=
  if max = 0 then width else widthLoop (max / 2) (width + 1)
termination_by max
decreasing_by omega

theorem widthLoop_eq {max width : Nat} (h : 0 < max) : widthLoop max width = width + (Nat.log2 max + 1) := by
  induction max using Nat.strongRecOn generalizing width with
  | ind max ih =>
    unfold widthLoop
    rw [if_neg (by omega), Nat.log2_def]
    by_cases htwo : 2 ≤ max
    · rw [if_pos htwo, ih (max / 2) (by omega) (by omega)]
      omega
    · have hzero : max / 2 = 0 := by omega
      unfold widthLoop
      rw [if_neg htwo, if_pos hzero]

theorem numToBitwidth_eq_loop {num : Nat} :
    numToBitwidth num = if num ≤ 2 then 1 else widthLoop (num - 1) 0 := by
  by_cases h : num ≤ 2
  · rw [if_pos h]
    exact if_pos h
  · rw [if_neg h, widthLoop_eq (by omega), Nat.zero_add]
    exact if_neg h

/-- `ID_TYPE` -/
inductive IdType
  | int64
  | uint64
  deriving DecidableEq

namespace IdType

/-- `x << n`; the signed one is defined as long as the value fits. -/
def shiftLeft (t : IdType) (x : BitVec 64) (n : Nat) : Option (BitVec 64) :=
  match t with
  | .uint64 => some (x <<< n)
  | .int64 => if x.toNat * 2 ^ n < 2 ^ 63 then some (x <<< n) else none

/-- `x >> n`; the signed one copies the top bit. -/
def shiftRight (t : IdType) (x : BitVec 64) (n : Nat) : BitVec 64 :=
  match t with
  | .uint64 => x >>> n
  | .int64 => x.sshiftRight n

variable {t : IdType} {x : BitVec 64} {a n : Nat}

theorem shiftLeft_eq (h : a * 2 ^ n < 2 ^ 63) :
    t.shiftLeft (BitVec.ofNat 64 a) n = some (BitVec.ofNat 64 (a <<< n)) := by
  have hle : a ≤ a * 2 ^ n := Nat.le_mul_of_pos_right a (Nat.two_pow_pos n)
  have ha : (BitVec.ofNat 64 a).toNat = a := Nat.mod_eq_of_lt (by omega)
  have hword : BitVec.ofNat 64 a <<< n = BitVec.ofNat 64 (a <<< n) := by
    apply BitVec.eq_of_toNat_eq
    rw [BitVec.toNat_shiftLeft, ha, BitVec.toNat_ofNat]
  cases t with
  | uint64 => exact congrArg some hword
  | int64 =>
    unfold shiftLeft
    rw [ha, if_pos h, hword]

theorem shiftRight_eq (h : x.toNat < 2 ^ 63) : t.shiftRight x n = BitVec.ofNat 64 (x.toNat >>> n) := by
  have hmsb : x.msb = false := BitVec.msb_eq_false_iff_two_mul_lt.mpr (by omega)
  have hword : x >>> n = BitVec.ofNat 64 (x.toNat >>> n) := by
    apply BitVec.eq_of_toNat_eq
    rw [BitVec.toNat_ushiftRight, BitVec.toNat_ofNat]
    have hle := Nat.shiftRight_le x.toNat n
    exact (Nat.mod_eq_of_lt (by omega)).symm
  cases t with
  | uint64 => exact hword
  | int64 => exact (BitVec.sshiftRight_eq_of_msb_false hmsb).trans hword

end IdType

/-! ### The template -/

/-- The members of `IdParser<ID_TYPE>` (`id_parser.h:41-110`). -/
structure IdParserWords where
  offsetOffset : Nat
  labelIdOffset : Nat
  fidMask : BitVec 64
  lidMask : BitVec 64
  labelIdMask : BitVec 64
  offsetMask : BitVec 64
  offsetWidth : Nat
  deriving DecidableEq

namespace IdParserWords

/-- `Init` (`id_parser.h:49-66`); `none` when a shift overflows. -/
def init (t : IdType) (fnum : Nat) : Option IdParserWords := do
  let fidWidth := numToBitwidth fnum
  let labelWidth := numToBitwidth maxVlabels
  let offsetWidth := 64 - fidWidth - labelWidth - 1
  let labelIdOffset := 64 - labelWidth - 1
  let fidMask := (← t.shiftLeft 1 fidWidth) - 1
  let lidMask ← t.shiftLeft ((← t.shiftLeft 1 (64 - fidWidth - 1)) - 1) fidWidth
  let labelIdMask ← t.shiftLeft ((← t.shiftLeft 1 labelWidth) - 1) labelIdOffset
  let offsetMask ← t.shiftLeft ((← t.shiftLeft 1 offsetWidth) - 1) fidWidth
  return { offsetOffset := fidWidth, labelIdOffset := labelIdOffset, fidMask := fidMask, lidMask := lidMask
           labelIdMask := labelIdMask, offsetMask := offsetMask, offsetWidth := offsetWidth }

def getFid (p : IdParserWords) (v : BitVec 64) : BitVec 64 := v &&& p.fidMask

/-- The result is an `int`. -/
def getLabelId (t : IdType) (p : IdParserWords) (v : BitVec 64) : Int :=
  ((t.shiftRight (v &&& p.labelIdMask) p.labelIdOffset).setWidth 32).toInt

/-- The result is an `int64_t`. -/
def getOffset (t : IdType) (p : IdParserWords) (v : BitVec 64) : Int :=
  (t.shiftRight (v &&& p.offsetMask) p.offsetOffset).toInt

def getLid (p : IdParserWords) (v : BitVec 64) : BitVec 64 := v &&& p.lidMask

def generateId (t : IdType) (p : IdParserWords) (fid : BitVec 64) (label offset : Int) : Option (BitVec 64) := do
  let offset ← t.shiftLeft (BitVec.ofInt 64 offset) p.offsetOffset
  let label ← t.shiftLeft (BitVec.ofInt 64 label) p.labelIdOffset
  return (fid &&& p.fidMask) ||| (offset &&& p.offsetMask) ||| (label &&& p.labelIdMask)

/-- `GenerateOuterId` (`id_parser.h:92-98`): offsets are counted down from the largest. -/
def generateOuterId (t : IdType) (p : IdParserWords) (fid : BitVec 64) (label offset : Int) :
    Option (BitVec 64) := do
  let outerMax := (← t.shiftLeft 1 p.offsetWidth) - 1
  let outerOffset := outerMax - BitVec.ofInt 64 offset
  let offset ← t.shiftLeft outerOffset p.offsetOffset
  let label ← t.shiftLeft (BitVec.ofInt 64 label) p.labelIdOffset
  return (fid &&& p.fidMask) ||| (offset &&& p.offsetMask) ||| (label &&& p.labelIdMask)

/-- `GenerateDeletedId` of the store (`id_parser.h:86-90`), where words are unsigned. -/
def generateDeletedId (_p : IdParserWords) (offset : Int) : BitVec 64 := BitVec.ofInt 64 offset ||| (1 <<< 63)

/-! ### The words of the natural numbers -/

def ofParser (p : IdParser) : IdParserWords :=
  { offsetOffset := p.offsetOffset, labelIdOffset := p.labelIdOffset, fidMask := BitVec.ofNat 64 p.fidMask
    lidMask := BitVec.ofNat 64 p.lidMask, labelIdMask := BitVec.ofNat 64 p.labelIdMask
    offsetMask := BitVec.ofNat 64 p.offsetMask, offsetWidth := p.offsetWidth }

section words
variable {t : IdType} {fnum fid label offset lo w : Nat} {v : BitVec 64}

theorem mask_lt (h : lo + w ≤ 63) : mask lo w < 2 ^ 63 := by
  have hle : 2 ^ w * 2 ^ lo ≤ 2 ^ 63 := by
    rw [← Nat.pow_add]
    exact Nat.pow_le_pow_right (by decide) (by omega)
  have hpos := Nat.two_pow_pos lo
  unfold mask
  rw [Nat.shiftLeft_eq, Nat.sub_mul]
  omega

theorem shiftLeft_one (hw : w < 63) : t.shiftLeft 1 w = some (BitVec.ofNat 64 (2 ^ w)) := by
  have hpow : 2 ^ w < 2 ^ 63 := Nat.pow_lt_pow_right (by decide) hw
  have hone : t.shiftLeft (BitVec.ofNat 64 1) w = some (BitVec.ofNat 64 (1 <<< w)) :=
    IdType.shiftLeft_eq (by rw [Nat.one_mul]; exact hpow)
  rw [Nat.one_shiftLeft] at hone
  exact hone

theorem two_pow_sub_one (w : Nat) : BitVec.ofNat 64 (2 ^ w) - 1 = BitVec.ofNat 64 (2 ^ w - 1) :=
  BitVec.ofNat_sub_ofNat_of_le _ 1 (by decide) (Nat.two_pow_pos w)

theorem shiftLeft_mask (h : lo + w ≤ 63) :
    t.shiftLeft (BitVec.ofNat 64 (2 ^ w - 1)) lo = some (BitVec.ofNat 64 (mask lo w)) := by
  have hfit := mask_lt h
  unfold mask at hfit
  rw [Nat.shiftLeft_eq] at hfit
  exact IdType.shiftLeft_eq hfit

theorem init_eq (hf : numToBitwidth fnum ≤ 55) : init t fnum = some (ofParser (IdParser.init fnum)) := by
  have hpos : 0 < numToBitwidth fnum := numToBitwidth_pos
  have hlabel : numToBitwidth maxVlabels = 7 := IdParser.labelWidth_eq
  have hfid : BitVec.ofNat 64 (2 ^ numToBitwidth fnum) - 1 = BitVec.ofNat 64 (mask 0 (numToBitwidth fnum)) :=
    two_pow_sub_one _
  have hlid := @shiftLeft_mask t (numToBitwidth fnum) (64 - numToBitwidth fnum - 1) (by omega)
  have hlabelId := @shiftLeft_mask t (64 - 7 - 1) 7 (by decide)
  have hoffset := @shiftLeft_mask t (numToBitwidth fnum) (64 - numToBitwidth fnum - 7 - 1) (by omega)
  unfold init
  rw [hlabel]
  simp only [shiftLeft_one (t := t) (w := numToBitwidth fnum) (by omega),
    shiftLeft_one (t := t) (w := 64 - numToBitwidth fnum - 1) (by omega), shiftLeft_one (t := t) (w := 7) (by decide),
    shiftLeft_one (t := t) (w := 64 - numToBitwidth fnum - 7 - 1) (by omega), hfid, two_pow_sub_one, hlid, hlabelId,
    hoffset, Option.bind_eq_bind, Option.bind_some]
  rfl

theorem toNat_and_mask (h : lo + w ≤ 63) :
    (v &&& BitVec.ofNat 64 (mask lo w)).toNat = v.toNat &&& mask lo w := by
  have hlt := mask_lt h
  have hmask : (BitVec.ofNat 64 (mask lo w)).toNat = mask lo w := Nat.mod_eq_of_lt (by omega)
  rw [BitVec.toNat_and, hmask]

theorem shiftRight_field (h : lo + w ≤ 63) :
    t.shiftRight (v &&& BitVec.ofNat 64 (mask lo w)) lo = BitVec.ofNat 64 (extract lo w v.toNat) := by
  have hfield := toNat_and_mask (v := v) h
  have hle : v.toNat &&& mask lo w ≤ mask lo w := Nat.and_le_right
  have hlt := mask_lt h
  rw [IdType.shiftRight_eq (by omega), hfield]
  rfl

theorem toNat_getFid (hf : numToBitwidth fnum ≤ 55) :
    ((ofParser (IdParser.init fnum)).getFid v).toNat = (IdParser.init fnum).getFid v.toNat :=
  toNat_and_mask (by omega)

theorem getLabelId_eq : getLabelId t (ofParser (IdParser.init fnum)) v = (IdParser.init fnum).getLabelId v.toNat := by
  have hfield : t.shiftRight (v &&& BitVec.ofNat 64 (mask 56 7)) 56 = BitVec.ofNat 64 (extract 56 7 v.toNat) :=
    shiftRight_field (by decide)
  have hlt : extract 56 7 v.toNat < 2 ^ 7 := extract_lt
  show ((t.shiftRight (v &&& BitVec.ofNat 64 (mask 56 7)) 56).setWidth 32).toInt = _
  have hword : ((BitVec.ofNat 64 (extract 56 7 v.toNat)).setWidth 32).toNat = extract 56 7 v.toNat := by
    rw [BitVec.toNat_setWidth, BitVec.toNat_ofNat]
    omega
  rw [hfield, BitVec.toInt_eq_toNat_of_lt (by omega), hword]
  rfl

theorem getOffset_eq (hf : numToBitwidth fnum ≤ 55) :
    getOffset t (ofParser (IdParser.init fnum)) v = (IdParser.init fnum).getOffset v.toNat := by
  have hwidth := @IdParser.offsetWidth_eq fnum (by omega)
  have hlt : extract (numToBitwidth fnum) (IdParser.init fnum).offsetWidth v.toNat < 2 ^ 63 :=
    Nat.lt_of_lt_of_le extract_lt (Nat.pow_le_pow_right (by decide) (by omega))
  have hfield := @shiftRight_field t (numToBitwidth fnum) (IdParser.init fnum).offsetWidth v (by omega)
  have hword : (BitVec.ofNat 64 (extract (numToBitwidth fnum) (IdParser.init fnum).offsetWidth v.toNat)).toNat =
      extract (numToBitwidth fnum) (IdParser.init fnum).offsetWidth v.toNat := Nat.mod_eq_of_lt (by omega)
  show (t.shiftRight (v &&& BitVec.ofNat 64 (mask (numToBitwidth fnum) (IdParser.init fnum).offsetWidth))
    (numToBitwidth fnum)).toInt = _
  rw [hfield, BitVec.toInt_eq_toNat_of_lt (by omega), hword]
  rfl

theorem shiftLeft_natCast (h : offset * 2 ^ lo < 2 ^ 63) :
    t.shiftLeft (BitVec.ofInt 64 (offset : Int)) lo = some (BitVec.ofNat 64 (offset <<< lo)) := by
  rw [BitVec.ofInt_natCast]
  exact IdType.shiftLeft_eq h

theorem field_fits (hlt : offset < 2 ^ w) (h : lo + w ≤ 63) : offset * 2 ^ lo < 2 ^ 63 := by
  calc offset * 2 ^ lo < 2 ^ w * 2 ^ lo := Nat.mul_lt_mul_of_pos_right hlt (Nat.two_pow_pos lo)
    _ = 2 ^ (w + lo) := (Nat.pow_add 2 w lo).symm
    _ ≤ 2 ^ 63 := Nat.pow_le_pow_right (by decide) (by omega)

theorem generateId_eq (hf : numToBitwidth fnum ≤ 55) (hlabel : label < maxVlabels)
    (hoffset : offset < 2 ^ (IdParser.init fnum).offsetWidth) :
    generateId t (ofParser (IdParser.init fnum)) (BitVec.ofNat 64 fid) label offset =
      some (BitVec.ofNat 64 ((IdParser.init fnum).generateId fid label offset)) := by
  have hwidth := @IdParser.offsetWidth_eq fnum (by omega)
  have hlabel' : label < 2 ^ 7 := hlabel
  have hoffsetWord := @shiftLeft_natCast t _ (numToBitwidth fnum) (field_fits hoffset (by omega))
  have hlabelWord := @shiftLeft_natCast t _ 56 (field_fits hlabel' (by decide))
  have hat : (ofParser (IdParser.init fnum)).offsetOffset = numToBitwidth fnum := rfl
  have hlabelAt : (ofParser (IdParser.init fnum)).labelIdOffset = 56 := rfl
  unfold generateId IdParser.generateId
  rw [hat, hlabelAt, hoffsetWord, hlabelWord, BitVec.ofNat_or, BitVec.ofNat_or, BitVec.ofNat_and, BitVec.ofNat_and,
    BitVec.ofNat_and]
  rfl

theorem generateOuterId_eq (hf : numToBitwidth fnum ≤ 55) (hlabel : label < maxVlabels)
    (hoffset : offset < 2 ^ (IdParser.init fnum).offsetWidth) :
    generateOuterId t (ofParser (IdParser.init fnum)) (BitVec.ofNat 64 fid) label offset =
      some (BitVec.ofNat 64
        ((IdParser.init fnum).generateId fid label (2 ^ (IdParser.init fnum).offsetWidth - 1 - offset))) := by
  have hwidth := @IdParser.offsetWidth_eq fnum (by omega)
  have hpow : t.shiftLeft 1 (ofParser (IdParser.init fnum)).offsetWidth =
      some (BitVec.ofNat 64 (2 ^ (IdParser.init fnum).offsetWidth)) := by
    show t.shiftLeft 1 (IdParser.init fnum).offsetWidth = _
    exact shiftLeft_one (by omega)
  have hsub : BitVec.ofNat 64 (2 ^ (IdParser.init fnum).offsetWidth - 1) - BitVec.ofInt 64 (offset : Int) =
      BitVec.ofInt 64 ((2 ^ (IdParser.init fnum).offsetWidth - 1 - offset : Nat) : Int) := by
    rw [BitVec.ofInt_natCast, BitVec.ofInt_natCast]
    have hlt : 2 ^ (IdParser.init fnum).offsetWidth ≤ 2 ^ 63 := Nat.pow_le_pow_right (by decide) (by omega)
    exact BitVec.ofNat_sub_ofNat_of_le _ offset (by omega) (by omega)
  have hgenerate := @generateId_eq t fnum fid label (2 ^ (IdParser.init fnum).offsetWidth - 1 - offset) hf hlabel
    (by omega)
  rw [← hgenerate]
  unfold generateOuterId generateId
  rw [hpow, Option.bind_eq_bind, Option.bind_some, two_pow_sub_one]
  show Option.bind (t.shiftLeft (BitVec.ofNat 64 _ - BitVec.ofInt 64 (offset : Int)) _) _ = _
  rw [hsub]

theorem msb_ofNat (h : fid < 2 ^ 63) : (BitVec.ofNat 64 fid).msb = false := by
  have hword : (BitVec.ofNat 64 fid).toNat = fid := Nat.mod_eq_of_lt (by omega)
  exact BitVec.msb_eq_false_iff_two_mul_lt.mpr (by omega)

theorem msb_generateDeletedId {p : IdParserWords} {n : Int} : (p.generateDeletedId n).msb = true := by
  unfold generateDeletedId
  rw [BitVec.msb_or]
  exact Bool.or_true _

theorem toNat_generateId (hf : numToBitwidth fnum ≤ 55) :
    (BitVec.ofNat 64 ((IdParser.init fnum).generateId fid label offset)).toNat =
      (IdParser.init fnum).generateId fid label offset := by
  have hbelow := @IdParser.generateId_lt fnum fid label offset (by omega)
  exact Nat.mod_eq_of_lt (by omega)

theorem getLid_eq (hf : numToBitwidth fnum ≤ 55) :
    (ofParser (IdParser.init fnum)).getLid (BitVec.ofNat 64 ((IdParser.init fnum).generateId fid label offset)) =
      BitVec.ofNat 64 ((IdParser.init fnum).generateId 0 label offset) := by
  have hlid := @IdParser.getLid_generateId fnum fid label offset
    (show numToBitwidth fnum ≤ 56 by omega)
  apply BitVec.eq_of_toNat_eq
  show (_ &&& BitVec.ofNat 64 (mask (numToBitwidth fnum) (64 - numToBitwidth fnum - 1))).toNat = _
  rw [toNat_and_mask (by omega), toNat_generateId hf, toNat_generateId hf, ← hlid]
  rfl

end words

/-- What both types make of a fragment, a label and an offset. -/
structure Packed (p : IdParserWords) (fid label offset : Nat) (id : BitVec 64) : Prop where
  generated : ∀ t, generateId t p (BitVec.ofNat 64 fid) label offset = some id
  fidOf : p.getFid id = BitVec.ofNat 64 fid
  labelOf : ∀ t, getLabelId t p id = label
  offsetOf : ∀ t, getOffset t p id = offset
  lidOf : ∀ t, generateId t p 0 label offset = some (p.getLid id)
  unmarked : id.msb = false
  notDeleted : ∀ n, id ≠ p.generateDeletedId n

section packing
variable {t : IdType} {fnum fid label offset : Nat}

theorem packed_generateId (hf : numToBitwidth fnum ≤ 55) (hfid : fid < fnum) (hlabel : label < maxVlabels)
    (hoffset : offset < 2 ^ (IdParser.init fnum).offsetWidth) :
    Packed (ofParser (IdParser.init fnum)) fid label offset
      (BitVec.ofNat 64 ((IdParser.init fnum).generateId fid label offset)) := by
  have hwidth := @IdParser.offsetWidth_eq fnum (by omega)
  have hnarrow : offset < 2 ^ (56 - numToBitwidth fnum) := by
    rw [← hwidth]
    exact hoffset
  have hfield : fid < 2 ^ numToBitwidth fnum := IdParser.lt_two_pow_numToBitwidth hfid
  have hfits : 2 ^ numToBitwidth fnum ≤ 2 ^ 55 := Nat.pow_le_pow_right (by decide) hf
  have hmsb : (BitVec.ofNat 64 ((IdParser.init fnum).generateId fid label offset)).msb = false :=
    msb_ofNat (IdParser.generateId_lt (by omega))
  refine ⟨fun t => generateId_eq hf hlabel hoffset, ?_, fun t => ?_, fun t => ?_, fun t => ?_, hmsb, fun n hn => ?_⟩
  · apply BitVec.eq_of_toNat_eq
    rw [toNat_getFid hf, toNat_generateId hf, IdParser.getFid_generateId (by omega) hfield]
    exact (Nat.mod_eq_of_lt (by omega)).symm
  · rw [getLabelId_eq, toNat_generateId hf, IdParser.getLabelId_generateId (by omega) hlabel]
  · rw [getOffset_eq hf, toNat_generateId hf, IdParser.getOffset_generateId (by omega) hnarrow]
  · rw [getLid_eq hf]
    exact generateId_eq hf hlabel hoffset
  · rw [hn, msb_generateDeletedId] at hmsb
    cases hmsb

theorem generateId_getters (hf : numToBitwidth fnum ≤ 55) {id : BitVec 64} (hmsb : id.msb = false) :
    generateId t (ofParser (IdParser.init fnum)) ((ofParser (IdParser.init fnum)).getFid id)
      (getLabelId t (ofParser (IdParser.init fnum)) id) (getOffset t (ofParser (IdParser.init fnum)) id) = some id := by
  have hid : id.toNat < 2 ^ 63 := by
    have hdouble := BitVec.msb_eq_false_iff_two_mul_lt.mp hmsb
    omega
  have hfields := @IdParser.generateId_fields fnum _ (by omega) hid
  have hfid : (ofParser (IdParser.init fnum)).getFid id = BitVec.ofNat 64 ((IdParser.init fnum).getFid id.toNat) := by
    apply BitVec.eq_of_toNat_eq
    have hle : (IdParser.init fnum).getFid id.toNat ≤ id.toNat := Nat.and_le_left
    rw [toNat_getFid hf]
    exact (Nat.mod_eq_of_lt (by omega)).symm
  have hlabel : (IdParser.init fnum).getLabelId id.toNat < maxVlabels := extract_lt
  have hoffset : (IdParser.init fnum).getOffset id.toNat < 2 ^ (IdParser.init fnum).offsetWidth := extract_lt
  rw [hfid, getLabelId_eq, getOffset_eq hf, generateId_eq hf hlabel hoffset, hfields]
  exact congrArg some (BitVec.eq_of_toNat_eq (Nat.mod_eq_of_lt (by omega)))

/-- Inner offsets count up and outer offsets count down, so their ids meet only when all are used. -/
theorem inner_ne_outer (hf : numToBitwidth fnum ≤ 55) {label' i o : Nat}
    (hroom : i + o + 1 < 2 ^ (IdParser.init fnum).offsetWidth) :
    BitVec.ofNat 64 ((IdParser.init fnum).generateId 0 label i) ≠
      BitVec.ofNat 64
        ((IdParser.init fnum).generateId 0 label' (2 ^ (IdParser.init fnum).offsetWidth - 1 - o)) := by
  intro heq
  have hwidth := @IdParser.offsetWidth_eq fnum (by omega)
  have hsame := congrArg BitVec.toNat heq
  rw [toNat_generateId hf, toNat_generateId hf] at hsame
  have hoffsets := congrArg (IdParser.init fnum).getOffset hsame
  rw [hwidth] at hroom hoffsets
  rw [IdParser.getOffset_generateId (by omega) (by omega),
    IdParser.getOffset_generateId (by omega) (by omega)] at hoffsets
  omega

end packing

/-- For every number of fragments (an `int`) both types pack a fragment, a label and an offset into the
same word, read it back the same way, and give an inner and an outer vertex different local ids. -/
theorem id_packing (fnum : Nat) (hint : fnum < 2 ^ 31) :
    ∃ p, (∀ t, init t fnum = some p) ∧
      (∀ fid < fnum, ∀ label < maxVlabels, ∀ offset < 2 ^ p.offsetWidth, ∃ id, Packed p fid label offset id) ∧
      (∀ id : BitVec 64, id.msb = false →
        ∀ t, generateId t p (p.getFid id) (getLabelId t p id) (getOffset t p id) = some id) ∧
      (∀ id, getLabelId .int64 p id = getLabelId .uint64 p id ∧ getOffset .int64 p id = getOffset .uint64 p id) ∧
      ∀ inner outer : Nat, inner + outer < 2 ^ p.offsetWidth → ∀ i < inner, ∀ o < outer,
        ∀ label < maxVlabels, ∀ label' < maxVlabels, ∃ lid ovLid,
          (∀ t, generateId t p 0 label i = some lid) ∧ (∀ t, generateOuterId t p 0 label' o = some ovLid) ∧
            lid ≠ ovLid := by
  have hf : numToBitwidth fnum ≤ 55 :=
    Nat.le_trans (IdParser.numToBitwidth_le (w := 31) (by decide) (by omega)) (by decide)
  refine ⟨ofParser (IdParser.init fnum), fun t => init_eq hf, ?_, ?_, ?_, ?_⟩
  · intro fid hfid label hlabel offset hoffset
    exact ⟨_, packed_generateId hf hfid hlabel hoffset⟩
  · intro id hmsb t
    exact generateId_getters hf hmsb
  · intro id
    rw [getLabelId_eq, getLabelId_eq, getOffset_eq hf, getOffset_eq hf]
    exact ⟨rfl, rfl⟩
  · intro inner outer hroom i hi o ho label hlabel label' hlabel'
    have hroom' : inner + outer < 2 ^ (IdParser.init fnum).offsetWidth := hroom
    exact ⟨_, _, fun t => generateId_eq hf hlabel (by omega), fun t => generateOuterId_eq hf hlabel' (by omega),
      inner_ne_outer hf (by omega)⟩

/-- Three fragments. -/
theorem id_packing_three : ∃ p, (∀ t, init t 3 = some p) ∧ ∀ t, generateId t p 2 5 9 = some 0x500000000000026#64 := by
  obtain ⟨p, hinit, -⟩ := id_packing 3 (by decide)
  have hp : ofParser (IdParser.init 3) = p :=
    Option.some.inj ((init_eq (t := .int64) (by decide)).symm.trans (hinit .int64))
  subst hp
  refine ⟨_, hinit, fun t => ?_⟩
  cases t with
  | int64 => decide
  | uint64 => decide

end IdParserWords

end Gart.Fragment
