import Gart.Fragment.VertexProps
import Gart.Store.ColumnAccess

/-!
# The access paths of a column

Four functions write a column of a row and three read it. Each finds the row in the page behind a base of its own, and a
value that one of them writes is the value that another one reads if and only if they have the same base.
-/

namespace Gart.Fragment
open Gart.ByteMemory Gart.BitArray Gart.Outcome Gart.Versions Gart.Store

/-! ### Runs -/

/-- A store of the properties of a label with its buffers. -/
structure ColumnStore where
  property : PropertyColPaged
  buf : RegionBuffer
  strings : StringBuffer

inductive ColumnWrite where
  | insert (off ver : Nat) (vList : List Bytes)
  | update (off ver : Nat) (vList : List Bytes)
  | updateCids (off : Nat) (cids : List Nat) (v : Memory) (ver : Nat)
  | updateCid (off cid : Nat) (v : Memory) (ver : Nat)

def ColumnWrite.ver : ColumnWrite → Nat
  | .insert _ ver _ => ver
  | .update _ ver _ => ver
  | .updateCids _ _ _ ver => ver
  | .updateCid _ _ _ ver => ver

def ColumnStore.apply (layout : VertexLayout) (dtypes : List PropertyDataType) (s : ColumnStore) :
    ColumnWrite → Except StoreFault ColumnStore
  | .insert off ver vList => do
    let (property, buf) ← s.property.insert s.buf layout dtypes off ver vList
    return { s with
      property := property
      buf := buf }
  | .update off ver vList => do
    let (property, buf, strings) ← s.property.update s.buf s.strings layout dtypes off ver vList
    return { property := property, buf := buf, strings := strings }
  | .updateCids off cids v ver => do
    let (property, buf) ← s.property.updateCids s.buf off cids v ver
    return { s with
      property := property
      buf := buf }
  | .updateCid off cid v ver => do
    let (property, buf) ← s.property.updateCid s.buf off cid v ver
    return { s with
      property := property
      buf := buf }

/-- The families of a store, with no version later than `w`. -/
structure ColumnsInv (cols : List ColumnFamily) (p : PropertyColPaged) (w : Nat) : Prop where
  cols : p.cols = cols
  upTo : ∀ f pg, UpTo Page.ver w (p.pages f pg)

section run
variable {cols : List ColumnFamily} {p p' : PropertyColPaged} {buf buf' : RegionBuffer} {w w' off family voff : Nat}
  {col : ColumnFamily} {b : RowBuild} {v : Memory} {f : Page → Page} {chain : List Page}

theorem ColumnsInv.mono (h : ColumnsInv cols p w') (hle : w' ≤ w) : ColumnsInv cols p w :=
  ⟨h.cols, fun f pg => (h.upTo f pg).mono hle⟩

theorem ColumnsInv.put (h : ColumnsInv cols p w') (hle : w' ≤ w)
    (hfind : findWithInsertPage col w (p.pages family (off / col.pageSize)) buf = .ok (chain, buf'))
    (hver : ∀ page : Page, (f page).ver = page.ver) : ColumnsInv cols { p with
      pages := Function.update p.pages family
        (Function.update (p.pages family) (off / col.pageSize) (chain.modifyHead f)) } w := by
  obtain ⟨page, hopened, -⟩ := findWithInsertPage_spec (h.upTo _ _) hle hfind
  obtain ⟨hup, -⟩ := hopened.visible_write ((hver page).trans hopened.version)
  refine ⟨h.cols, fun g pg => ?_⟩
  show UpTo Page.ver w (Function.update p.pages family _ g pg)
  rw [update_apply₂]
  by_cases hsame : (g, pg) = (family, off / col.pageSize)
  · rw [if_pos hsame]
    exact hup
  · rw [if_neg hsame]
    exact (h.upTo g pg).mono hle

theorem ColumnsInv.putFamily (h : ColumnsInv cols p w') (hle : w' ≤ w)
    (hok : PropertyColPaged.putFamily b off w family (p, buf) = .ok (p', buf')) : ColumnsInv cols p' w := by
  unfold PropertyColPaged.putFamily at hok
  dsimp only at hok
  cases hcol : p.cols[family]? with
  | none =>
    rw [hcol] at hok
    cases hok
  | some col =>
    rw [hcol] at hok
    obtain ⟨⟨chain, buf₁⟩, hfind, hok⟩ := bind_eq_ok hok
    obtain ⟨rfl, -⟩ := Prod.mk.inj (Except.ok.inj hok)
    exact h.put hle hfind fun _ => rfl

theorem ColumnsInv.updateCol (h : ColumnsInv cols p w') (hle : w' ≤ w)
    (hok : PropertyColPaged.updateCol off w voff v (p, buf) family = .ok (p', buf')) : ColumnsInv cols p' w := by
  unfold PropertyColPaged.updateCol at hok
  dsimp only at hok
  cases hcol : p.cols[family]? with
  | none =>
    rw [hcol] at hok
    cases hok
  | some col =>
    rw [hcol] at hok
    obtain ⟨⟨chain, buf₁⟩, hfind, hok⟩ := bind_eq_ok hok
    obtain ⟨rfl, -⟩ := Prod.mk.inj (Except.ok.inj hok)
    exact h.put hle hfind fun _ => rfl

theorem ColumnsInv.foldlM {α : Type} {step : PropertyColPaged × RegionBuffer → α →
    Except StoreFault (PropertyColPaged × RegionBuffer)} {xs : List α} (h : ColumnsInv cols p w)
    (hstep : ∀ (x : α) (p p' : PropertyColPaged) (buf buf' : RegionBuffer), ColumnsInv cols p w →
      step (p, buf) x = .ok (p', buf') → ColumnsInv cols p' w)
    (hok : xs.foldlM step (p, buf) = .ok (p', buf')) : ColumnsInv cols p' w := by
  induction xs generalizing p buf with
  | nil =>
    obtain ⟨rfl, -⟩ := Prod.mk.inj (Except.ok.inj hok)
    exact h
  | cons x xs ih =>
    rw [List.foldlM_cons] at hok
    obtain ⟨⟨p₁, buf₁⟩, hx, hok⟩ := bind_eq_ok hok
    exact ih (hstep x p p₁ buf buf₁ h hx) hok

theorem ColumnsInv.insert {layout : VertexLayout} {dtypes : List PropertyDataType} {vList : List Bytes}
    (h : ColumnsInv cols p w) (hok : p.insert buf layout dtypes off w vList = .ok (p', buf')) :
    ColumnsInv cols p' w := by
  unfold PropertyColPaged.insert at hok
  by_cases hroom : p.maxItems ≤ off
  · rw [if_pos hroom] at hok
    cases hok
  · rw [if_neg hroom] at hok
    obtain ⟨b, -, hok⟩ := bind_eq_ok hok
    exact h.foldlM (fun _ _ _ _ _ hinv hput => hinv.putFamily (Nat.le_refl _) hput) hok

theorem ColumnsInv.update {layout : VertexLayout} {dtypes : List PropertyDataType} {vList : List Bytes}
    {strings strings' : StringBuffer} (h : ColumnsInv cols p w)
    (hok : p.update buf strings layout dtypes off w vList = .ok (p', buf', strings')) : ColumnsInv cols p' w := by
  unfold PropertyColPaged.update at hok
  obtain ⟨⟨b, strings₁⟩, -, hok⟩ := bind_eq_ok hok
  obtain ⟨⟨p₁, buf₁⟩, hloop, hok⟩ := bind_eq_ok hok
  obtain ⟨rfl, -⟩ := Prod.mk.inj (Except.ok.inj hok)
  refine h.foldlM (fun family p₂ p₃ buf₂ buf₃ hinv hput => ?_) hloop
  by_cases hupdated : b.updated family
  · rw [if_pos hupdated] at hput
    exact hinv.putFamily (Nat.le_refl _) hput
  · rw [if_neg hupdated] at hput
    obtain ⟨rfl, -⟩ := Prod.mk.inj (Except.ok.inj hput)
    exact hinv

theorem ColumnsInv.updateCids {cids : List Nat} (h : ColumnsInv cols p w)
    (hok : p.updateCids buf off cids v w = .ok (p', buf')) : ColumnsInv cols p' w := by
  unfold PropertyColPaged.updateCids at hok
  by_cases hlen : p.valLen = 0
  · rw [if_pos hlen] at hok
    obtain ⟨rfl, -⟩ := Prod.mk.inj (Except.ok.inj hok)
    exact h
  · rw [if_neg hlen] at hok
    refine h.foldlM (fun i p₁ p₂ buf₁ buf₂ hinv hput => ?_) hok
    have hput : PropertyColPaged.updateCol off w (p.valOff i) v (p₁, buf₁) i = .ok (p₂, buf₂) := hput
    exact hinv.updateCol (Nat.le_refl _) hput

theorem ColumnsInv.updateCid (h : ColumnsInv cols p w)
    (hok : p.updateCid buf off family v w = .ok (p', buf')) : ColumnsInv cols p' w := by
  unfold PropertyColPaged.updateCid at hok
  by_cases hlen : p.valLen = 0
  · rw [if_pos hlen] at hok
    obtain ⟨rfl, -⟩ := Prod.mk.inj (Except.ok.inj hok)
    exact h
  · rw [if_neg hlen] at hok
    exact h.updateCol (Nat.le_refl _) hok

theorem ColumnsInv.apply {layout : VertexLayout} {dtypes : List PropertyDataType} {s s' : ColumnStore}
    {call : ColumnWrite} (h : ColumnsInv cols s.property w') (hle : w' ≤ call.ver)
    (hok : s.apply layout dtypes call = .ok s') : ColumnsInv cols s'.property call.ver := by
  have hinv : ColumnsInv cols s.property call.ver := h.mono hle
  cases call with
  | insert off ver vList =>
    obtain ⟨⟨p', buf'⟩, hrun, hok⟩ := bind_eq_ok hok
    obtain rfl := Except.ok.inj hok
    exact hinv.insert hrun
  | update off ver vList =>
    obtain ⟨⟨p', buf', strings'⟩, hrun, hok⟩ := bind_eq_ok hok
    obtain rfl := Except.ok.inj hok
    exact hinv.update hrun
  | updateCids off cids v ver =>
    obtain ⟨⟨p', buf'⟩, hrun, hok⟩ := bind_eq_ok hok
    obtain rfl := Except.ok.inj hok
    exact hinv.updateCids hrun
  | updateCid off cid v ver =>
    obtain ⟨⟨p', buf'⟩, hrun, hok⟩ := bind_eq_ok hok
    obtain rfl := Except.ok.inj hok
    exact hinv.updateCid hrun

theorem ColumnsInv.run {layout : VertexLayout} {dtypes : List PropertyDataType} {calls : List ColumnWrite}
    {s s' : ColumnStore} (h : ColumnsInv cols s.property w)
    (hsorted : (w :: calls.map ColumnWrite.ver).Pairwise (· ≤ ·))
    (hok : calls.foldlM (ColumnStore.apply layout dtypes) s = .ok s') :
    ∃ w' ∈ w :: calls.map ColumnWrite.ver, ColumnsInv cols s'.property w' := by
  induction calls generalizing s w with
  | nil =>
    obtain rfl := Except.ok.inj hok
    exact ⟨w, List.mem_cons_self, h⟩
  | cons call calls ih =>
    rw [List.foldlM_cons] at hok
    obtain ⟨s₁, hcall, hok⟩ := bind_eq_ok hok
    rw [List.map_cons] at hsorted
    have hle : w ≤ call.ver := List.rel_of_pairwise_cons hsorted List.mem_cons_self
    obtain ⟨w', hw', hinv⟩ := ih (h.apply hle hcall) (List.pairwise_cons.mp hsorted).2 hok
    exact ⟨w', List.mem_cons_of_mem _ hw', hinv⟩

end run

/-! ### Paths -/

inductive WritePath where
  | insertList | updateList | updateCids | updateCid

inductive ReadPath where
  | getByOffset | cursor | getDataImpl

/-- The cell of a family in the page that `GetDataImpl` comes to (`gart_fragment.h:872-913`); the fragment has
`column_num` and `vlen` of the store in its own tables. -/
def getDataImpl (p : PropertyColPaged) (readEpoch off family : Nat) : Option (Memory × Nat) := do
  let col ← p.cols[family]?
  let page ← findPage readEpoch (p.pages family (off / col.pageSize))
  return (page.content, byteSize (col.pageSize * col.columnNum) + off % col.pageSize * col.vlen)

theorem dataAddr_eq_getDataImpl {r : VertexReader} {vOffset propId family offset : Nat} {col : ColumnFamily}
    (hcol : r.property.cols[family]? = some col) (hfamily : r.layout.columnFamilyId[propId]? = some family)
    (hnum : r.layout.numPerColumnFamily[family]? = some col.columnNum)
    (hlength : r.layout.columnFamilyDataLength[family]? = some col.vlen)
    (hoffset : r.layout.columnFamilyOffset[propId]? = some (offset : Int)) :
    r.dataAddr vOffset propId =
      (getDataImpl r.property r.readEpoch vOffset family).map fun cell => (cell.1, cell.2 + offset) := by
  unfold VertexReader.dataAddr VertexReader.page getDataImpl
  rw [hfamily, Option.bind_eq_bind, Option.bind_eq_bind, Option.bind_eq_bind, Option.bind_some, hcol]
  cases hpage : findPage r.readEpoch (r.property.pages family (vOffset / col.pageSize)) with
  | none => simp [hpage]
  | some page =>
    simp only [Option.bind_eq_bind, Option.bind_some, Option.pure_def, hpage, hnum, hlength, hoffset, Option.map_some]
    rw [← Int.natCast_add, Int.toNat_natCast]

/-- A path writes the bytes at the start of `v` into a column, with the null flags where it has them. -/
def WritePath.write (path : WritePath) (s : PropertyColPaged × RegionBuffer) (off family : Nat) (v : Memory)
    (nulls : List Bool) (ver : Nat) : Except StoreFault (PropertyColPaged × RegionBuffer) :=
  match path with
  | insertList | updateList =>
    PropertyColPaged.putFamily { propBuffer := fun _ => v, isNull := fun _ => nulls } off ver family s
  | updateCids => s.1.updateCids s.2 off [family] (fun x => v (x - s.1.valOff family)) ver
  | updateCid => s.1.updateCid s.2 off family v ver

def ReadPath.place (path : ReadPath) (p : PropertyColPaged) (stableHeader off family ver : Nat) :
    Option (Memory × Nat) :=
  match path with
  | getByOffset => p.getByOffset off family ver
  | cursor => Cursor.valueAt p stableHeader family ver off
  | getDataImpl => Fragment.getDataImpl p ver off family

def ReadPath.read (path : ReadPath) (p : PropertyColPaged) (stableHeader off family ver : Nat) : Option Bytes := do
  let col ← p.cols[family]?
  let (m, a) ← path.place p stableHeader off family ver
  return ByteMemory.read m a col.vlen

/-- Where the rows start in the content of a page, for a path that writes. -/
def WritePath.base (path : WritePath) (col : ColumnFamily) : Nat :=
  match path with
  | insertList | updateList => byteSize (col.pageSize * col.columnNum)
  | updateCids | updateCid => byteSize col.pageSize

/-- Where the rows start in the content of a page, for a path that reads. -/
def ReadPath.base (path : ReadPath) (col : ColumnFamily) : Nat :=
  match path with
  | getByOffset | cursor => 0
  | getDataImpl => byteSize (col.pageSize * col.columnNum)

/-- What one path writes is what the other one reads, from the version of the write on. -/
def Agree (s : PropertyColPaged × RegionBuffer) (stableHeader off family ver : Nat) (col : ColumnFamily)
    (write : WritePath) (read : ReadPath) : Prop :=
  ∀ v nulls p' buf', nulls.length ≤ col.columnNum → write.write s off family v nulls ver = .ok (p', buf') →
    ∀ e, ver ≤ e → e < 2 ^ 31 → read.read p' stableHeader off family e = some (ByteMemory.read v 0 col.vlen)

/-- No path changes what another path reads of a different column or row, or the null bits of the page but for the
ones that it was given for the row. -/
structure KeepsOthers (s : PropertyColPaged × RegionBuffer) (stableHeader off family ver : Nat) (col : ColumnFamily)
    (write : WritePath) : Prop where
  others : ∀ v nulls p' buf', nulls.length ≤ col.columnNum → write.write s off family v nulls ver = .ok (p', buf') →
    ∀ (read : ReadPath) (off' family' e : Nat) (bytes : Bytes), (off', family') ≠ (off, family) → e < 2 ^ 31 →
      read.read s.1 stableHeader off' family' e = some bytes → read.read p' stableHeader off' family' e = some bytes
  nullBits : ∀ v nulls p' buf', nulls.length ≤ col.columnNum → write.write s off family v nulls ver = .ok (p', buf') →
    ∀ page page', s.1.findPage family (off / col.pageSize) ver = some page →
      p'.findPage family (off / col.pageSize) ver = some page' →
        ∀ row idx, row < col.pageSize → idx < col.columnNum → row ≠ off % col.pageSize →
          getBit page'.content (col.nullBit row idx) = getBit page.content (col.nullBit row idx)

/-- All paths agree on a column of a row, and none touches anything else. -/
structure PathsAgree (s : PropertyColPaged × RegionBuffer) (stableHeader off family ver : Nat) (col : ColumnFamily) :
    Prop where
  agree : ∀ write read, Agree s stableHeader off family ver col write read
  keeps : ∀ write, KeepsOthers s stableHeader off family ver col write

/-! ### Writing and reading -/

section paths
variable {s : PropertyColPaged × RegionBuffer} {p : PropertyColPaged} {cols : List ColumnFamily}
  {w off family ver e stableHeader : Nat} {col : ColumnFamily} {chain : List Page} {buf' : RegionBuffer} {page : Page}

def WritePath.change (path : WritePath) (col : ColumnFamily) (row : Nat) (v : Memory) (nulls : List Bool)
    (page : Page) :
    Page :=
  match path with
  | insertList | updateList => page.putRow col row (read v 0 col.vlen) nulls
  | updateCids | updateCid =>
    { page with content := ByteMemory.write page.content (row * col.vlen + byteSize col.pageSize) (read v 0 col.vlen) }

theorem valLen_pos (hcol : p.cols[family]? = some col) (hbytes : 0 < col.vlen) : p.valLen ≠ 0 := by
  have hmem : col.vlen ∈ p.cols.map ColumnFamily.vlen := List.mem_map_of_mem (List.mem_of_getElem? hcol)
  have hle : col.vlen ≤ p.valLen := List.single_le_sum (fun _ _ => Nat.zero_le _) _ hmem
  omega

theorem WritePath.write_eq (path : WritePath) (v : Memory) (nulls : List Bool) (hcol : s.1.cols[family]? = some col)
    (hbytes : 0 < col.vlen)
    (hfind : findWithInsertPage col ver (s.1.pages family (off / col.pageSize)) s.2 = .ok (chain, buf')) :
    path.write s off family v nulls ver = .ok ({ s.1 with
      pages := Function.update s.1.pages family (Function.update (s.1.pages family) (off / col.pageSize)
        (chain.modifyHead (path.change col (off % col.pageSize) v nulls))) }, buf') := by
  have hcolumn : ∀ (voff : Nat) (v' : Memory), read v' voff col.vlen = read v 0 col.vlen →
      PropertyColPaged.updateCol off ver voff v' s family = .ok ({ s.1 with
        pages := Function.update s.1.pages family (Function.update (s.1.pages family) (off / col.pageSize)
          (chain.modifyHead (WritePath.updateCid.change col (off % col.pageSize) v nulls))) }, buf') := by
    intro voff v' hv
    unfold PropertyColPaged.updateCol
    rw [hcol]
    dsimp only
    rw [hfind, hv]
    rfl
  cases path with
  | insertList | updateList =>
    show PropertyColPaged.putFamily _ off ver family s = _
    unfold PropertyColPaged.putFamily
    rw [hcol]
    dsimp only
    rw [hfind]
    rfl
  | updateCids =>
    show s.1.updateCids s.2 off [family] _ ver = _
    unfold PropertyColPaged.updateCids
    rw [if_neg (valLen_pos hcol hbytes), List.foldlM_cons,
        hcolumn (s.1.valOff family) (fun x => v (x - s.1.valOff family))]
    · rfl
    · unfold ByteMemory.read
      refine List.map_congr_left fun i _ => ?_
      show v (s.1.valOff family + i - s.1.valOff family) = v (0 + i)
      rw [Nat.add_sub_cancel_left, Nat.zero_add]
  | updateCid =>
    show s.1.updateCid s.2 off family v ver = _
    unfold PropertyColPaged.updateCid
    rw [if_neg (valLen_pos hcol hbytes)]
    exact hcolumn 0 v rfl

theorem ReadPath.read_eq (path : ReadPath) (hcol : p.cols[family]? = some col)
    (hpages : p.pages family (off / col.pageSize) = page :: chain) (hup : UpTo Page.ver w (page :: chain))
    (hw : w ≤ e) (he : e < 2 ^ 31) (hstable : off < stableHeader) (hrows : stableHeader < 2 ^ 64)
    (hsize : 0 < col.pageSize) (hsize64 : col.pageSize < 2 ^ 64) :
    path.read p stableHeader off family e =
      some (ByteMemory.read page.content (path.base col + off % col.pageSize * col.vlen) col.vlen) := by
  unfold ReadPath.read
  rw [hcol, Option.bind_eq_bind, Option.bind_some]
  cases path with
  | getByOffset =>
    have hplace : p.getByOffset off family e = some (page.content, off % col.pageSize * col.vlen) := by
      unfold PropertyColPaged.getByOffset
      rw [hcol, Option.bind_eq_bind, Option.bind_some, findPage_of_upTo hpages hup hw]
      rfl
    show (p.getByOffset off family e).bind _ = _
    rw [hplace]
    show _ = some (ByteMemory.read page.content (0 + off % col.pageSize * col.vlen) col.vlen)
    rw [Nat.zero_add]
    rfl
  | cursor =>
    show (Cursor.valueAt p stableHeader family e off).bind _ = _
    rw [valueAt_of_upTo hcol hpages hup hw hstable hrows hsize hsize64]
    show _ = some (ByteMemory.read page.content (0 + off % col.pageSize * col.vlen) col.vlen)
    rw [Nat.zero_add]
    rfl
  | getDataImpl =>
    have hplace : Fragment.getDataImpl p e off family = some (page.content,
        byteSize (col.pageSize * col.columnNum) + off % col.pageSize * col.vlen) := by
      unfold Fragment.getDataImpl
      rw [hcol, Option.bind_eq_bind, Option.bind_some, findPage_eq (hpages ▸ hup) (by omega) he, hpages,
        visible_of_upTo hup hw]
      rfl
    show (Fragment.getDataImpl p e off family).bind _ = _
    rw [hplace]
    rfl

theorem WritePath.change_content (path : WritePath) (col : ColumnFamily) (row : Nat) (v : Memory) (page : Page) :
    (path.change col row v [] page).content =
      ByteMemory.write page.content (path.base col + row * col.vlen) (read v 0 col.vlen) := by
  cases path with
  | insertList | updateList => rfl
  | updateCids | updateCid =>
    show ByteMemory.write page.content (row * col.vlen + byteSize col.pageSize) _ = _
    rw [Nat.add_comm]
    rfl

theorem WritePath.change_read (path : WritePath) (row : Nat) (v : Memory) (nulls : List Bool) (page : Page)
    (hrow : row < col.pageSize) (hnulls : nulls.length ≤ col.columnNum) :
    ByteMemory.read (path.change col row v nulls page).content (path.base col + row * col.vlen) col.vlen =
      ByteMemory.read v 0 col.vlen := by
  have hlist : ByteMemory.read (page.putRow col row (read v 0 col.vlen) nulls).content
      (byteSize (col.pageSize * col.columnNum) + row * col.vlen) col.vlen = ByteMemory.read v 0 col.vlen := by
    obtain ⟨-, hcells⟩ := @putRow_same col row (read v 0 col.vlen) nulls page v hrow hnulls
    exact hcells 0 col.vlen (by omega)
  cases path with
  | insertList | updateList => exact hlist
  | updateCids | updateCid =>
    show ByteMemory.read (ByteMemory.write page.content (row * col.vlen + byteSize col.pageSize) _)
      (byteSize col.pageSize + row * col.vlen) col.vlen = _
    rw [Nat.add_comm]
    exact read_write_of_length (read_length _ _ _)

theorem agree_iff (hinv : ColumnsInv cols s.1 w) (hw : w ≤ ver) (hver : ver < 2 ^ 31)
    (hcol : s.1.cols[family]? = some col) (hbytes : 0 < col.vlen)
    (hfind : findWithInsertPage col ver (s.1.pages family (off / col.pageSize)) s.2 = .ok (chain, buf'))
    (hstable : off < stableHeader) (hrows : stableHeader < 2 ^ 64) (hsize : 0 < col.pageSize)
    (hsize64 : col.pageSize < 2 ^ 64) (write : WritePath) (readPath : ReadPath) :
    Agree s stableHeader off family ver col write readPath ↔ write.base col = readPath.base col := by
  have hmod : off % col.pageSize < col.pageSize := Nat.mod_lt _ hsize
  obtain ⟨page, hopened, -⟩ := findWithInsertPage_spec (hinv.upTo _ _) hw hfind
  have hread : ∀ (v : Memory) (nulls : List Bool) (e : Nat), ver ≤ e → e < 2 ^ 31 →
      readPath.read { s.1 with
        pages := Function.update s.1.pages family (Function.update (s.1.pages family) (off / col.pageSize)
          (chain.modifyHead (write.change col (off % col.pageSize) v nulls))) } stableHeader off family e =
        some (read (write.change col (off % col.pageSize) v nulls page).content
          (readPath.base col + off % col.pageSize * col.vlen) col.vlen) := by
    intro v nulls e hle he
    have hchange : (write.change col (off % col.pageSize) v nulls page).ver = ver := by
      rw [← hopened.version]
      cases write <;> rfl
    obtain ⟨rest, hrest, hup, -⟩ := hopened.eq_cons
    rw [hrest, List.modifyHead_cons]
    refine readPath.read_eq hcol ?_ (hup.cons (Nat.le_of_eq hchange)) hle he hstable hrows hsize hsize64
    show Function.update s.1.pages family _ family (off / col.pageSize) = _
    rw [Function.update_self, Function.update_self]
  constructor
  · intro hagree
    by_contra hne
    -- a byte of the read that the write leaves alone
    obtain ⟨i, hi, hout⟩ : ∃ i < col.vlen, readPath.base col + off % col.pageSize * col.vlen + i <
        write.base col + off % col.pageSize * col.vlen ∨ write.base col + off % col.pageSize * col.vlen + col.vlen ≤
          readPath.base col + off % col.pageSize * col.vlen + i := by
      rcases Nat.lt_or_gt_of_ne hne with hlt | hgt
      · exact ⟨col.vlen - 1, by omega, .inr (by omega)⟩
      · exact ⟨0, hbytes, .inl (by omega)⟩
    generalize hx : readPath.base col + off % col.pageSize * col.vlen + i = x at hout
    have hsome := hagree (fun _ => page.content x + 1) [] _ _ (Nat.zero_le _) (write.write_eq _ _ hcol hbytes hfind) ver
      (Nat.le_refl _) hver
    rw [hread _ _ ver (Nat.le_refl _) hver, write.change_content] at hsome
    have hbyte := congrArg (fun bytes : Bytes => bytes[i]?) (Option.some.inj hsome)
    unfold ByteMemory.read at hbyte
    simp only [List.getElem?_map, List.getElem?_range hi, Option.map_some, Option.some.injEq] at hbyte
    rw [hx, write_outside (by rw [List.length_map, List.length_range]; exact hout)] at hbyte
    have hnat := congrArg UInt8.toNat hbyte
    rw [UInt8.toNat_add] at hnat
    have hlt := (page.content x).toNat_lt
    have hone : (1 : UInt8).toNat = 1 := rfl
    omega
  · intro hbase v nulls p' buf'' hnulls hok e hle he
    rw [write.write_eq v nulls hcol hbytes hfind] at hok
    obtain ⟨rfl, -⟩ := Prod.mk.inj (Except.ok.inj hok)
    rw [hread v nulls e hle he, ← hbase, write.change_read _ _ _ _ hmod hnulls]

end paths

/-- After any writes, for every row of every column that has bytes: a value that one path writes is the value that
another path reads if and only if both start the rows at the same base. `update` of columns and `getByOffset` never
do. The versions are epochs, which readers compare as `int`. -/
theorem accessPaths_agree_iff (layout : VertexLayout) (dtypes : List PropertyDataType) (maxItems : Nat)
    (buf : RegionBuffer) (strings : StringBuffer) (calls : List ColumnWrite) (s : ColumnStore)
    (hsorted : (calls.map ColumnWrite.ver).Pairwise (· ≤ ·))
    (hrun : calls.foldlM (ColumnStore.apply layout dtypes)
      { property := .create layout maxItems, buf := buf, strings := strings } = .ok s)
    (off family ver stableHeader : Nat) (col : ColumnFamily) (hver : ∀ call ∈ calls, call.ver ≤ ver)
    (hint : ver < 2 ^ 31)
    (hcol : s.property.cols[family]? = some col) (hbytes : 0 < col.vlen) (hsize : col.pageSize < 2 ^ 64)
    (hroom : ∃ r, findWithInsertPage col ver (s.property.pages family (off / col.pageSize)) s.buf = .ok r)
    (hstable : off < stableHeader) (hrows : stableHeader < 2 ^ 64) :
    (∀ write read, Agree (s.property, s.buf) stableHeader off family ver col write read ↔
      write.base col = read.base col) ∧ ¬ PathsAgree (s.property, s.buf) stableHeader off family ver col := by
  have hcreate :
      ColumnsInv (PropertyColPaged.create layout maxItems).cols (PropertyColPaged.create layout maxItems) 0 :=
    ⟨rfl, fun f pg x hx => by cases hx⟩
  obtain ⟨w, hw, hinv⟩ := hcreate.run (List.pairwise_cons.mpr ⟨fun _ _ => Nat.zero_le _, hsorted⟩) hrun
  have hle : w ≤ ver := by
    rcases List.mem_cons.mp hw with rfl | hw
    · exact Nat.zero_le _
    · obtain ⟨call, hcall, rfl⟩ := List.mem_map.mp hw
      exact hver call hcall
  have hpos : 0 < col.pageSize := by
    have hmem := List.mem_of_getElem? hcol
    rw [hinv.cols] at hmem
    obtain ⟨family', -, rfl⟩ := List.mem_map.mp hmem
    exact ColumnFamily.settle_pageSize_pos maxItems family'
  obtain ⟨⟨chain, buf'⟩, hfind⟩ := hroom
  have hiff := fun write read => agree_iff (s := (s.property, s.buf)) hinv hle hint hcol hbytes hfind hstable hrows hpos
    hsize write read
  refine ⟨hiff, fun h => ?_⟩
  have hbase := (hiff .updateCid .getByOffset).mp (h.agree _ _)
  have hzero : byteSize col.pageSize = 0 := hbase
  unfold byteSize at hzero
  omega

def intColumn : VertexLayout :=
  { propColumnFamily := [0], propOffset := [0], propId := [0]
    colFamilies := [{ vlen := 4, pageSize := 4, columnNum := 1 }] }

def emptyColumn : ColumnStore :=
  { property := .create intColumn 4
    buf := { capacity := 1000, blank := fun _ => 0 }
    strings := { capacity := 100, content := fun _ => 0, capacity_le := hundred_le } }

def insertFive : List ColumnWrite := [.insert 0 1 [[53]]]

theorem accessPaths_agree_iff_insertFive :
    ∃ s, insertFive.foldlM (ColumnStore.apply intColumn [.int]) emptyColumn = .ok s ∧
    ∃ col, s.property.cols[0]? = some col ∧ (∀ write read, Agree (s.property, s.buf) 1 0 0 1 col write read ↔
      write.base col = read.base col) ∧ ¬ PathsAgree (s.property, s.buf) 1 0 0 1 col := by
  have hsome : ((insertFive.foldlM (ColumnStore.apply intColumn [.int]) emptyColumn).toOption.bind fun s =>
      s.property.cols[0]?.bind fun col => (findWithInsertPage col 1 (s.property.pages 0 (0 / col.pageSize))
        s.buf).toOption.map fun _ => (col.vlen, col.pageSize)) = some (4, 4) := by decide +kernel
  obtain ⟨s, hs, hsome⟩ := Option.bind_eq_some_iff.mp hsome
  obtain ⟨col, hcol, hsome⟩ := Option.bind_eq_some_iff.mp hsome
  obtain ⟨r, hr, hsizes⟩ := Option.map_eq_some_iff.mp hsome
  obtain ⟨hvlen, hsize⟩ := Prod.mk.inj hsizes
  exact ⟨s, ok_of_toOption hs, col, hcol, accessPaths_agree_iff intColumn [.int] 4 emptyColumn.buf emptyColumn.strings
    insertFive s (by decide) (ok_of_toOption hs) 0 0 1 1 col (by decide) (by decide) hcol (by omega) (by omega)
    ⟨r, ok_of_toOption hr⟩ (by decide) (by decide)⟩

/-- What reading a column gives behind a write of it, by these paths. -/
def bytesBehind (calls : List ColumnWrite) (path : ReadPath) : Option Bytes :=
  (calls.foldlM (ColumnStore.apply intColumn [.int]) emptyColumn).toOption.bind fun s => path.read s.property 1 0 0 1

/-- The inserted 5 is read by the fragment; `getByOffset` reads the null bits and three of its bytes. -/
theorem bytesBehind_insertFive : bytesBehind insertFive .getDataImpl = some [5, 0, 0, 0] ∧
    bytesBehind insertFive .getByOffset = some [0, 5, 0, 0] ∧ bytesBehind insertFive .cursor = some [0, 5, 0, 0] := by
  decide +kernel

end Gart.Fragment
