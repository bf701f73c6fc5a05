import Gart.Store.PropertyCol

/-!
# Rows in pages

What a row of texts has to be in the pages of its families, and what copying one row
into a page does to the rows.
-/

namespace Gart.Store
open Gart.ByteMemory Gart.BitArray Gart.Outcome Gart.Versions

/-! ### Numbers in memory -/

theorem loadInt_storeInt {w : Nat} {n : Int} (m : Memory) (a : Nat) (hw : 2 ^ w = 256 ^ (w / 8))
    (hpos : 0 < w) (hn : Decimal.InRange w n) : loadInt w (storeInt w m a n) a = n := by
  obtain ⟨hlo, hhi⟩ := hn
  obtain ⟨k, rfl⟩ : ∃ k, w = k + 1 := ⟨w - 1, by omega⟩
  have hpow : (2 : Int) ^ (k + 1) = 2 * 2 ^ k := by rw [Int.pow_succ]; omega
  have hpospow : (0 : Int) < 2 ^ k := Int.pow_pos (by decide)
  rw [Nat.add_sub_cancel] at hlo hhi
  unfold loadInt storeInt Decimal.wrap
  rw [load_store_same, ← hw]
  have hmod : (n % 2 ^ (k + 1)).toNat < 2 ^ (k + 1) := by
    have hlt := Int.emod_lt_of_pos n (show (0 : Int) < 2 ^ (k + 1) by omega)
    have hcast : ((2 ^ (k + 1) : Nat) : Int) = 2 ^ (k + 1) := by norm_cast
    omega
  rw [Nat.mod_eq_of_lt hmod, Int.toNat_of_nonneg (Int.emod_nonneg n (by omega))]
  have hcast : ((2 ^ (k + 1) : Nat) : Int) = 2 ^ (k + 1) := by norm_cast
  rw [← hcast, Int.emod_bmod]
  exact Int.bmod_eq_of_le (by rw [hcast]; omega) (by rw [hcast]; omega)

theorem inRange_readInt {text : Bytes} {n : Int} (h : readInt text = .ok n) : Decimal.InRange 32 n := by
  unfold readInt Converter.stoi at h
  split at h
  · cases h
  · rename_i k hk
    by_cases hin : Decimal.InRange 32 k
    · rw [if_pos hin] at h
      rw [← Except.ok.inj h]
      exact hin
    · rw [if_neg hin] at h
      cases h

theorem inRange_readLong {text : Bytes} {n : Int} (h : readLong text = .ok n) : Decimal.InRange 64 n := by
  unfold readLong Converter.stoll at h
  split at h
  · cases h
  · rename_i k hk
    by_cases hin : Decimal.InRange 64 k
    · rw [if_pos hin] at h
      rw [← Except.ok.inj h]
      exact hin
    · rw [if_neg hin] at h
      cases h

/-! ### Values -/

def ValueAt (strings : StringBuffer) (dtype : PropertyDataType) (m : Memory) (a : Nat) (text : Bytes) :
    Prop :=
  match dtype with
  | .int => readInt text = .ok (loadInt 32 m a)
  | .long => readLong text = .ok (loadInt 64 m a)
  | .string => strings.Holds (load m a 8) text
  | _ => False

/-- A null bit and a cell stand for a text; the empty text is the null value. -/
structure Encodes (strings : StringBuffer) (dtype : PropertyDataType) (null : Bool) (m : Memory) (a : Nat)
    (text : Bytes) : Prop where
  null : null = decide (text = [])
  value : text ≠ [] → ValueAt strings dtype m a text

section values
variable {strings strings' : StringBuffer} {dtype : PropertyDataType} {m m' : Memory} {a a' : Nat}
  {text : Bytes} {null null' : Bool}

theorem ValueAt.congr (h : ValueAt strings dtype m a text)
    (hread : read m' a' dtype.size = read m a dtype.size) : ValueAt strings dtype m' a' text := by
  cases dtype with
  | int =>
    show readInt text = .ok (loadInt 32 m' a')
    have hload : loadInt 32 m' a' = loadInt 32 m a := congrArg (fun bs => Decimal.wrap 32 (ofBytes bs)) hread
    rw [hload]
    exact h
  | long =>
    show readLong text = .ok (loadInt 64 m' a')
    have hload : loadInt 64 m' a' = loadInt 64 m a := congrArg (fun bs => Decimal.wrap 64 (ofBytes bs)) hread
    rw [hload]
    exact h
  | string =>
    show strings.Holds (load m' a' 8) text
    have hload : load m' a' 8 = load m a 8 := congrArg ofBytes hread
    rw [hload]
    exact h
  | _ => exact h.elim

theorem ValueAt.extends (h : ValueAt strings dtype m a text) (hext : strings.Extends strings') :
    ValueAt strings' dtype m a text := by
  cases dtype with
  | string => exact StringBuffer.Holds.extends h hext
  | int => exact h
  | long => exact h
  | _ => exact h.elim

theorem Encodes.congr (h : Encodes strings dtype null m a text) (hnull : null' = null)
    (hread : read m' a' dtype.size = read m a dtype.size) : Encodes strings dtype null' m' a' text :=
  ⟨hnull.trans h.null, fun hne => (h.value hne).congr hread⟩

theorem Encodes.extends (h : Encodes strings dtype null m a text) (hext : strings.Extends strings') :
    Encodes strings' dtype null m a text :=
  ⟨h.null, fun hne => (h.value hne).extends hext⟩

end values

/-! ### One row -/

/-- Each property finds its place, and no two meet. -/
structure WellLaid (cols : List ColumnFamily) (layout : VertexLayout) (dtypes : List PropertyDataType) :
    Prop where
  found : ∀ (i : Nat) (dtype : PropertyDataType), dtypes[i]? = some dtype → ∃ place col,
    placeOf layout i = some place ∧ cols[place.family]? = some col ∧
      place.offset + dtype.size ≤ col.vlen ∧ place.nullBit < col.columnNum
  apart : ∀ (i j : Nat) (dtype dtype' : PropertyDataType) (place place' : Place), i ≠ j →
    dtypes[i]? = some dtype → dtypes[j]? = some dtype' → placeOf layout i = some place →
    placeOf layout j = some place' → place.family = place'.family →
      (place.offset + dtype.size ≤ place'.offset ∨ place'.offset + dtype'.size ≤ place.offset) ∧
        place.nullBit ≠ place'.nullBit
  bit : ∀ (i : Nat) (dtype : PropertyDataType) (place : Place), dtypes[i]? = some dtype →
    placeOf layout i = some place →
      place.nullBit = (layout.propColumnFamily.take i).count place.family
  rows : ∀ col ∈ cols, 0 < col.pageSize

def RowHolds (strings : StringBuffer) (layout : VertexLayout) (dtypes : List PropertyDataType) (family : Nat)
    (col : ColumnFamily) (m : Memory) (row : Nat) (texts : List Bytes) : Prop :=
  ∀ (i : Nat) (place : Place) (dtype : PropertyDataType) (text : Bytes), placeOf layout i = some place →
    place.family = family → dtypes[i]? = some dtype → texts[i]? = some text →
      Encodes strings dtype (getBit m (col.nullBit row place.nullBit)) m (col.cell row place.offset) text

theorem RowHolds.extends {strings strings' : StringBuffer} {layout : VertexLayout}
    {dtypes : List PropertyDataType} {family row : Nat} {col : ColumnFamily} {m : Memory}
    {texts : List Bytes} (h : RowHolds strings layout dtypes family col m row texts)
    (hext : strings.Extends strings') : RowHolds strings' layout dtypes family col m row texts :=
  fun i place dtype text hplace hfamily hdtype htext =>
    (h i place dtype text hplace hfamily hdtype htext).extends hext

/-! ### Copying a row into a page -/

section putRow
variable {col : ColumnFamily} {row row' offset size idx : Nat} {bytes : Bytes} {nulls : List Bool}
  {page : Page} {buffer : Memory}

theorem putRow_cell (hrow : row < col.pageSize) (hnulls : nulls.length ≤ col.columnNum) :
    read (page.putRow col row bytes nulls).content (col.cell row' offset) size =
      read (write page.content (col.cell row 0) bytes) (col.cell row' offset) size := by
  apply read_congr
  intro x hx _
  refine putBits_outside fun k hk => ?_
  have hbyte := @ColumnFamily.nullBit_byte_lt col row k hrow (by omega)
  unfold ColumnFamily.cell at hx
  have hsame : col.nullBit row 0 + k = col.nullBit row k := by
    unfold ColumnFamily.nullBit
    omega
  rw [hsame]
  omega

theorem putRow_bit (hrow' : row' < col.pageSize) (hidx : idx < col.columnNum) :
    getBit (page.putRow col row bytes nulls).content (col.nullBit row' idx) =
      if col.nullBit row 0 ≤ col.nullBit row' idx ∧ col.nullBit row' idx < col.nullBit row 0 + nulls.length then
        nulls.getD (col.nullBit row' idx - col.nullBit row 0) false
      else getBit page.content (col.nullBit row' idx) := by
  have hbyte := ColumnFamily.nullBit_byte_lt hrow' hidx
  have hold : getBit (write page.content (col.cell row 0) bytes) (col.nullBit row' idx) =
      getBit page.content (col.nullBit row' idx) := by
    apply getBit_congr
    apply write_outside
    unfold ColumnFamily.cell
    omega
  unfold Page.putRow
  rw [getBit_putBits, hold]

theorem putRow_same (hrow : row < col.pageSize) (hnulls : nulls.length ≤ col.columnNum) :
    (∀ idx < nulls.length, getBit (page.putRow col row bytes nulls).content (col.nullBit row idx) =
      nulls.getD idx false) ∧
    ∀ offset size, offset + size ≤ col.vlen →
      read (page.putRow col row (read buffer 0 col.vlen) nulls).content (col.cell row offset) size =
        read buffer offset size := by
  constructor
  · intro idx hidx
    rw [putRow_bit hrow (by omega)]
    have hsub : col.nullBit row idx - col.nullBit row 0 = idx := by
      unfold ColumnFamily.nullBit
      omega
    rw [if_pos (by unfold ColumnFamily.nullBit; omega), hsub]
  · intro offset size hin
    have hcell : col.cell row offset = col.cell row 0 + offset := by
      unfold ColumnFamily.cell
      omega
    rw [putRow_cell hrow hnulls, hcell, read_write_read hin, Nat.zero_add]

theorem putRow_other (hrow : row < col.pageSize) (hrow' : row' < col.pageSize) (hne : row' ≠ row)
    (hbytes : bytes.length = col.vlen) (hnulls : nulls.length ≤ col.columnNum) :
    (∀ idx < col.columnNum, getBit (page.putRow col row bytes nulls).content (col.nullBit row' idx) =
      getBit page.content (col.nullBit row' idx)) ∧
    ∀ offset size, offset + size ≤ col.vlen →
      read (page.putRow col row bytes nulls).content (col.cell row' offset) size =
        read page.content (col.cell row' offset) size := by
  constructor
  · intro idx hidx
    rw [putRow_bit hrow' hidx, if_neg]
    rintro ⟨hlo, hhi⟩
    have hk : col.nullBit row' idx = col.nullBit row (col.nullBit row' idx - col.nullBit row 0) := by
      unfold ColumnFamily.nullBit at hlo ⊢
      omega
    have hlt : col.nullBit row' idx - col.nullBit row 0 < col.columnNum := by omega
    exact hne (ColumnFamily.nullBit_inj hidx hlt hk).1
  · intro offset size hin
    rw [putRow_cell hrow hnulls]
    apply read_write_disjoint
    rw [hbytes]
    rcases Nat.lt_or_gt_of_ne hne with hlt | hgt
    · exact Or.inl (ColumnFamily.row_end_le hlt hin)
    · have hend := @ColumnFamily.row_end_le col row row' 0 offset col.vlen hgt (by omega)
      exact Or.inr hend

end putRow

end Gart.Store
