import Gart.Store.PropertyRun

/-!
# Writing and reading columns (property_col_paged.cc)

`update` of some columns and of one column take the bytes of a value as they are. `getByOffset` and the `Cursor` give
the place of a value. Each of them computes the place in the page by itself.
-/

namespace Gart.Store
open Gart.ByteMemory Gart.BitArray Gart.Outcome Gart.Versions

namespace PropertyColPaged

/-! ### update -/

/-- `val_off_` -/
def valOff (p : PropertyColPaged) (i : Nat) : Nat := ((p.cols.take i).map ColumnFamily.vlen).sum

/-- `val_len_` -/
def valLen (p : PropertyColPaged) : Nat := (p.cols.map ColumnFamily.vlen).sum

/-- The bytes of a column from `voff` on go into the newest version of its page. -/
def updateCol (off ver voff : Nat) (v : Memory) (s : PropertyColPaged × RegionBuffer) (i : Nat) :
    Except StoreFault (PropertyColPaged × RegionBuffer) :=
  match s.1.cols[i]? with
  | none => .error .outOfBounds
  | some col => do
    let pgNum := off / col.pageSize
    let (chain, buf) ← findWithInsertPage col ver (s.1.pages i pgNum) s.2
    let dst := off % col.pageSize * col.vlen + byteSize col.pageSize
    let chain := chain.modifyHead fun page => { page with content := write page.content dst (read v voff col.vlen) }
    return ({ s.1 with
      pages := Function.update s.1.pages i (Function.update (s.1.pages i) pgNum chain) }, buf)

/-- `PropertyColPaged::update` of the columns `cids` (`property_col_paged.cc:479-513`); `v` has the values of a whole
row. -/
def updateCids (p : PropertyColPaged) (buf : RegionBuffer) (off : Nat) (cids : List Nat) (v : Memory) (ver : Nat) :
    Except StoreFault (PropertyColPaged × RegionBuffer) :=
  if p.valLen = 0 then .ok (p, buf)
  else cids.foldlM (fun s i => updateCol off ver (p.valOff i) v s i) (p, buf)

/-- `PropertyColPaged::update` of one column (`property_col_paged.cc:515-537`). -/
def updateCid (p : PropertyColPaged) (buf : RegionBuffer) (off cid : Nat) (v : Memory) (ver : Nat) :
    Except StoreFault (PropertyColPaged × RegionBuffer) :=
  if p.valLen = 0 then .ok (p, buf)
  else updateCol off ver 0 v (p, buf) cid

/-! ### getByOffset -/

/-- `findPage` (`property_col_paged.cc:211-239`); `min_ver` is the version of the oldest page. -/
def findPage (p : PropertyColPaged) (colId pgNum version : Nat) : Option Page :=
  let chain := p.pages colId pgNum
  match chain.getLast? with
  | none => none
  | some oldest => if oldest.ver > version then none else chain.find? fun page => page.ver ≤ version

/-- `getByOffset` (`property_col_paged.cc:580-618`): the content of the page and the place in it. -/
def getByOffset (p : PropertyColPaged) (offset colId version : Nat) : Option (Memory × Nat) := do
  let col ← p.cols[colId]?
  let page ← p.findPage colId (offset / col.pageSize) version
  return (page.content, offset % col.pageSize * col.vlen)

end PropertyColPaged

/-! ### Cursor -/

/-- `n - 1` for a 64-bit number. -/
def before64 (n : Nat) : Nat := (n + (2 ^ 64 - 1)) % 2 ^ 64

theorem before64_succ {n : Nat} (h : n < 2 ^ 64) : (before64 n + 1) % 2 ^ 64 = n := by
  unfold before64
  rw [Nat.mod_add_mod]
  omega

theorem before64_eq_max_iff {n : Nat} (h : n < 2 ^ 64) : before64 n = 2 ^ 64 - 1 ↔ n = 0 := by
  unfold before64
  omega

/-- `PropertyColPaged::Cursor` (`property_col_paged.cc:645-660`) -/
structure Cursor where
  colId : Nat
  ver : Nat
  vlen : Nat
  pgsz : Nat
  beginOff : Nat := 0
  endOff : Nat
  cur : Nat := before64 0
  ptr : Option (Memory × Nat) := none
  base : Option Memory := none
  pgn : Nat := before64 0
  pgi : Nat

namespace Cursor

/-- The constructor; the rows end at `stable_header_`. -/
def create (col : ColumnFamily) (stableHeader colId ver : Nat) : Cursor :=
  { colId := colId, ver := ver, vlen := col.vlen, pgsz := col.pageSize, endOff := stableHeader, pgi :=
    before64 col.pageSize }

/-- `PropertyColPaged::Cursor::seekOffset` (`property_col_paged.cc:662-681`) -/
def seekOffset (c : Cursor) (stableHeader beginOff endOff : Nat) : Cursor :=
  let endOff := if endOff > stableHeader then stableHeader else endOff
  let beginOff := if beginOff > endOff then endOff else beginOff
  let pgi := before64 (beginOff % c.pgsz)
  if pgi = 2 ^ 64 - 1 then
    { c with
      beginOff := beginOff
      endOff := endOff
      cur := before64 beginOff
      pgi := before64 c.pgsz
      pgn := before64 (beginOff / c.pgsz) }
  else
    { c with
      beginOff := beginOff
      endOff := endOff
      cur := before64 beginOff
      pgi := pgi
      pgn := beginOff / c.pgsz }

/-- The page of the row is looked for again at its start and at the first row. -/
def relocate (p : PropertyColPaged) (c : Cursor) : Except StoreFault (Option Memory) :=
  if c.pgi = 0 ∨ c.base = none then
    let chain := p.pages c.colId c.pgn
    match chain.getLast? with
    | none => .error .nullPointer
    | some oldest =>
      if oldest.ver > c.ver then .ok none
      else
        match chain.find? fun page => page.ver ≤ c.ver with
        | none => .error .nullPointer
        | some page => .ok (some page.content)
  else .ok c.base

/-- The next row in its page, or the first one of the next page. -/
def advance (c : Cursor) : Cursor :=
  let pgi := (c.pgi + 1) % 2 ^ 64
  if pgi = c.pgsz then
    { c with
      pgi := 0
      pgn := (c.pgn + 1) % 2 ^ 64 }
  else { c with pgi := pgi }

/-- `nextRow` (`property_col_paged.cc:684-723`) -/
def nextRow (p : PropertyColPaged) (c : Cursor) : Except StoreFault (Bool × Cursor) :=
  let c := { c with cur := (c.cur + 1) % 2 ^ 64 }
  if c.cur ≥ c.endOff then .ok (false, c)
  else
    let c := c.advance
    match relocate p c with
    | .error fault => .error fault
    | .ok none => .ok (false, c)
    | .ok (some base) =>
      .ok (true, { c with
        base := some base
        ptr := some (base, c.vlen * c.pgi) })

/-- The value of one row: seek it, go to it, and take `value()`. -/
def valueAt (p : PropertyColPaged) (stableHeader colId ver off : Nat) : Option (Memory × Nat) := do
  let col ← p.cols[colId]?
  let c := (create col stableHeader colId ver).seekOffset stableHeader off (off + 1)
  let (found, c) ← (c.nextRow p).toOption
  if found then c.ptr else none

end Cursor

/-! ### Reading behind a write -/

section reads
variable {p : PropertyColPaged} {page : Page} {chain : List Page} {col : ColumnFamily}
  {family off pgNum version stableHeader : Nat}

theorem getLast?_ver {w : Nat} (hup : UpTo Page.ver w chain) (hw : w ≤ version) {oldest : Page}
    (hlast : chain.getLast? = some oldest) : ¬ oldest.ver > version := by
  have hle := hup oldest (List.mem_of_getLast? hlast)
  omega

theorem findPage_of_upTo {w : Nat} (hpages : p.pages family pgNum = page :: chain)
    (hup : UpTo Page.ver w (page :: chain)) (hw : w ≤ version) : p.findPage family pgNum version = some page := by
  obtain ⟨oldest, hlast⟩ : ∃ oldest, (page :: chain).getLast? = some oldest :=
    Option.isSome_iff_exists.mp (by simp)
  unfold PropertyColPaged.findPage
  rw [hpages]
  dsimp only
  rw [hlast]
  dsimp only
  rw [if_neg (getLast?_ver hup hw hlast)]
  exact visible_of_upTo hup hw

/-- A cursor before a row; the first row of a page is reached from the end of the page before. -/
structure Cursor.Before (c : Cursor) (col : ColumnFamily) (family version off : Nat) : Prop where
  colId : c.colId = family
  ver : c.ver = version
  vlen : c.vlen = col.vlen
  pgsz : c.pgsz = col.pageSize
  endOff : off < c.endOff
  base : c.base = none
  place : off % col.pageSize = 0 ∧ c.pgi = before64 col.pageSize ∧ c.pgn = before64 (off / col.pageSize) ∨
    off % col.pageSize ≠ 0 ∧ c.pgi = before64 (off % col.pageSize) ∧ c.pgn = off / col.pageSize

theorem Cursor.seekOffset_before (hstable : off < stableHeader) (hrows : stableHeader < 2 ^ 64) :
    let c := (create col stableHeader family version).seekOffset stableHeader off (off + 1)
    Before c col family version off ∧ c.cur = before64 off := by
  have hmod : off % col.pageSize < 2 ^ 64 := by
    have hle := Nat.mod_le off col.pageSize
    omega
  unfold seekOffset
  rw [if_neg (show ¬ off + 1 > stableHeader by omega)]
  dsimp only
  have hpgsz : (create col stableHeader family version).pgsz = col.pageSize := rfl
  rw [if_neg (show ¬ off > off + 1 by omega), hpgsz]
  by_cases hstart : off % col.pageSize = 0
  · rw [if_pos ((before64_eq_max_iff hmod).mpr hstart)]
    exact ⟨⟨rfl, rfl, rfl, rfl, Nat.lt_succ_self off, rfl, .inl ⟨hstart, rfl, rfl⟩⟩, rfl⟩
  · rw [if_neg fun h => hstart ((before64_eq_max_iff hmod).mp h)]
    exact ⟨⟨rfl, rfl, rfl, rfl, Nat.lt_succ_self off, rfl, .inr ⟨hstart, rfl, rfl⟩⟩, rfl⟩

theorem Cursor.Before.advance {c : Cursor} (h : c.Before col family version off) (hoff : off < 2 ^ 64)
    (hsize : 0 < col.pageSize) (hsize64 : col.pageSize < 2 ^ 64) : c.advance.colId = family ∧
      c.advance.ver = version ∧ c.advance.vlen = col.vlen ∧ c.advance.base = none ∧
        c.advance.pgn = off / col.pageSize ∧ c.advance.pgi = off % col.pageSize := by
  have hmod : off % col.pageSize < col.pageSize := Nat.mod_lt _ hsize
  have hdiv : off / col.pageSize ≤ off := Nat.div_le_self _ _
  unfold Cursor.advance
  dsimp only
  rcases h.place with ⟨hstart, hpgi, hpgn⟩ | ⟨-, hpgi, hpgn⟩
  · rw [hpgi, before64_succ hsize64, if_pos h.pgsz.symm]
    refine ⟨h.colId, h.ver, h.vlen, h.base, ?_, hstart.symm⟩
    rw [hpgn]
    exact before64_succ (by omega)
  · rw [hpgi, before64_succ (by omega), if_neg (by rw [h.pgsz]; exact Nat.ne_of_lt hmod)]
    exact ⟨h.colId, h.ver, h.vlen, h.base, hpgn, rfl⟩

theorem Cursor.Before.nextRow {w : Nat} {c : Cursor} (h : c.Before col family version off)
    (hcurEq : c.cur = before64 off)
    (hpages : p.pages family (off / col.pageSize) = page :: chain) (hup : UpTo Page.ver w (page :: chain))
    (hw : w ≤ version) (hoff : off < 2 ^ 64) (hsize : 0 < col.pageSize) (hsize64 : col.pageSize < 2 ^ 64) :
    ∃ c', Cursor.nextRow p c = .ok (true, c') ∧ c'.ptr = some (page.content, off % col.pageSize * col.vlen) := by
  obtain ⟨oldest, hlast⟩ : ∃ oldest, (page :: chain).getLast? = some oldest :=
    Option.isSome_iff_exists.mp (by simp)
  have hvisible : (page :: chain).find? (fun page => page.ver ≤ version) = some page := visible_of_upTo hup hw
  have hcur : ¬ (c.cur + 1) % 2 ^ 64 ≥ c.endOff := by
    rw [hcurEq, before64_succ hoff]
    exact Nat.not_le.mpr h.endOff
  have hbefore : Cursor.Before { c with cur := (c.cur + 1) % 2 ^ 64 } col family version off := { h with }
  obtain ⟨hcolId, hver, hvlen, hbase, hpgn, hpgi⟩ := hbefore.advance hoff hsize hsize64
  unfold Cursor.nextRow
  rw [if_neg hcur]
  dsimp only
  generalize Cursor.advance { c with cur := (c.cur + 1) % 2 ^ 64 } = c' at *
  have hrelocate : Cursor.relocate p c' = .ok (some page.content) := by
    unfold Cursor.relocate
    rw [if_pos (.inr hbase), hcolId, hver, hpgn, hpages]
    dsimp only
    rw [hlast]
    dsimp only
    rw [if_neg (getLast?_ver hup hw hlast), hvisible]
  rw [hrelocate]
  refine ⟨_, rfl, ?_⟩
  dsimp only
  rw [hvlen, hpgi, Nat.mul_comm]

theorem valueAt_of_upTo {w : Nat} (hcol : p.cols[family]? = some col)
    (hpages : p.pages family (off / col.pageSize) = page :: chain) (hup : UpTo Page.ver w (page :: chain))
    (hw : w ≤ version) (hstable : off < stableHeader) (hrows : stableHeader < 2 ^ 64) (hsize : 0 < col.pageSize)
    (hsize64 : col.pageSize < 2 ^ 64) :
    Cursor.valueAt p stableHeader family version off = some (page.content, off % col.pageSize * col.vlen) := by
  obtain ⟨hbefore, hcur⟩ := @Cursor.seekOffset_before col family off version stableHeader hstable hrows
  obtain ⟨c, hnext, hptr⟩ := hbefore.nextRow hcur hpages hup hw (by omega) hsize hsize64
  unfold Cursor.valueAt
  rw [hcol, Option.bind_eq_bind, Option.bind_some]
  dsimp only
  rw [hnext]
  exact hptr

end reads

end Gart.Store
