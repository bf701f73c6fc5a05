import Gart.Store.Schema

/-!
# The pages of a column family

A page has the null bits of its rows in front, a bit for every property of a row,
and behind them the rows, a cell for every property.
-/

namespace Gart.Store

/-- Where the store has the property with the index `i`. -/
structure Place where
  family : Nat
  offset : Nat
  nullBit : Nat
  deriving DecidableEq

def placeOf (store : VertexLayout) (i : Nat) : Option Place :=
  match store.propColumnFamily[i]?, store.propOffset[i]?, store.propId[i]? with
  | some family, some offset, some nullBit => some ⟨family, offset, nullBit⟩
  | _, _, _ => none

/-- `BYTE_SIZE` (`bitset.h:21`) -/
def byteSize (bits : Nat) : Nat := (bits + 7) / 8

namespace ColumnFamily

/-- The rows of a page as the constructor of `PropertyColPaged` settles them. -/
def settle (maxItems : Nat) (col : ColumnFamily) : ColumnFamily :=
  let pageSize := if maxItems < col.pageSize then maxItems else col.pageSize
  { col with pageSize := if pageSize = 0 then 4 * 1024 else pageSize, updatable := true }

def bitmapSize (col : ColumnFamily) : Nat := byteSize (col.pageSize * col.columnNum)

def nullBit (col : ColumnFamily) (row idx : Nat) : Nat := row * col.columnNum + idx

def cell (col : ColumnFamily) (row offset : Nat) : Nat := col.bitmapSize + row * col.vlen + offset

def contentSize (col : ColumnFamily) : Nat := col.bitmapSize + col.pageSize * col.vlen

theorem settle_pageSize_pos (maxItems : Nat) (col : ColumnFamily) :
    0 < (col.settle maxItems).pageSize := by
  show 0 < if (if maxItems < col.pageSize then maxItems else col.pageSize) = 0 then 4 * 1024
    else if maxItems < col.pageSize then maxItems else col.pageSize
  generalize (if maxItems < col.pageSize then maxItems else col.pageSize) = pageSize
  by_cases hzero : pageSize = 0
  · rw [if_pos hzero]
    decide
  · rw [if_neg hzero]
    exact Nat.pos_of_ne_zero hzero

section rows
variable {col : ColumnFamily} {row row' offset offset' size idx idx' : Nat}

theorem row_end_le (h : row < row') (hin : offset + size ≤ col.vlen) :
    col.cell row offset + size ≤ col.cell row' offset' := by
  have hmul : (row + 1) * col.vlen ≤ row' * col.vlen := Nat.mul_le_mul_right _ h
  rw [Nat.add_mul] at hmul
  unfold cell
  omega

theorem cell_end_le (h : row < col.pageSize) (hin : offset + size ≤ col.vlen) :
    col.cell row offset + size ≤ col.contentSize := by
  have hle := @row_end_le col row col.pageSize offset 0 size h hin
  unfold cell at hle ⊢
  unfold contentSize
  omega

theorem nullBit_lt (h : row < col.pageSize) (hin : idx < col.columnNum) :
    col.nullBit row idx < col.pageSize * col.columnNum := by
  have hmul : (row + 1) * col.columnNum ≤ col.pageSize * col.columnNum := Nat.mul_le_mul_right _ h
  rw [Nat.add_mul] at hmul
  unfold nullBit
  omega

theorem nullBit_byte_lt (h : row < col.pageSize) (hin : idx < col.columnNum) :
    col.nullBit row idx / 8 < col.bitmapSize := by
  have hlt := nullBit_lt h hin
  unfold bitmapSize byteSize
  omega

theorem nullBit_inj (hin : idx < col.columnNum) (hin' : idx' < col.columnNum)
    (h : col.nullBit row idx = col.nullBit row' idx') : row = row' ∧ idx = idx' := by
  unfold nullBit at h
  rcases Nat.lt_trichotomy row row' with hlt | rfl | hgt
  · have hmul : (row + 1) * col.columnNum ≤ row' * col.columnNum := Nat.mul_le_mul_right _ hlt
    rw [Nat.add_mul] at hmul
    omega
  · exact ⟨rfl, by omega⟩
  · have hmul : (row' + 1) * col.columnNum ≤ row * col.columnNum := Nat.mul_le_mul_right _ hgt
    rw [Nat.add_mul] at hmul
    omega

end rows

end ColumnFamily

end Gart.Store
