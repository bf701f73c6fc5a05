import Gart.Fragment.Layout
import Gart.Store.VertexRows

/-!
# Reading the properties of inner vertices

`VertexPropValueIsValid` and `GetData` walk along the versions of a page to the first one
that the read epoch may see, and find null bit and cell with the layout of the fragment.
-/

namespace Gart.Fragment
open Gart.ByteMemory Gart.BitArray Gart.Outcome Gart.GroupLayout Gart.Versions Gart.Store

/-! ### The reader -/

/-- The walk along the versions of a page; `get_epoch` is an `int`. Behind the last version there is
no page. -/
def findPage (readEpoch : Nat) (chain : List Page) : Option Page :=
  chain.find? fun page => Decimal.wrap 32 page.ver ≤ Decimal.wrap 32 readEpoch

/-- What a fragment has of the properties of a vertex label. -/
structure VertexReader where
  layout : FragmentLayout
  property : PropertyColPaged
  stringBuffer : Memory
  readEpoch : Nat

namespace VertexReader

/-- The family of a property, the rows of its pages and the content of the page of a vertex. -/
def page (r : VertexReader) (vOffset propId : Nat) : Option (Nat × Nat × Memory) := do
  let family ← r.layout.columnFamilyId[propId]?
  let col ← r.property.cols[family]?
  let vertexPerPage := col.pageSize
  let page ← findPage r.readEpoch (r.property.pages family (vOffset / vertexPerPage))
  return (family, vertexPerPage, page.content)

/-- `VertexPropValueIsValid` (`gart_fragment.h:705-734`) -/
def vertexPropValueIsValid (r : VertexReader) (vOffset propId : Nat) : Option Bool := do
  let (family, vertexPerPage, data) ← r.page vOffset propId
  let num ← r.layout.numPerColumnFamily[family]?
  let id ← r.layout.idInColumnFamily[propId]?
  return getBit data (vOffset % vertexPerPage * num + id) == false

/-- The address that `GetDataImpl` reads (`gart_fragment.h:743-781`). -/
def dataAddr (r : VertexReader) (vOffset propId : Nat) : Option (Memory × Nat) := do
  let (family, vertexPerPage, data) ← r.page vOffset propId
  let num ← r.layout.numPerColumnFamily[family]?
  let length ← r.layout.columnFamilyDataLength[family]?
  let offset ← r.layout.columnFamilyOffset[propId]?
  return (data, ((byteSize (vertexPerPage * num) + vOffset % vertexPerPage * length : Nat) + offset).toNat)

/-- `GetData<int>` -/
def getInt (r : VertexReader) (vOffset propId : Nat) : Option Int :=
  (r.dataAddr vOffset propId).map fun at' => loadInt 32 at'.1 at'.2

/-- `GetData<int64_t>` -/
def getLong (r : VertexReader) (vOffset propId : Nat) : Option Int :=
  (r.dataAddr vOffset propId).map fun at' => loadInt 64 at'.1 at'.2

/-- `GetData<std::string_view>` (`gart_fragment.h:865-869`): the offset and the length from `value >> 16` and `value
& 0xffff` -/
def getString (r : VertexReader) (vOffset propId : Nat) : Option Bytes :=
  (r.getLong vOffset propId).map fun value =>
    read r.stringBuffer (value / 2 ^ 16).toNat (value % 2 ^ 16).toNat

/-- The reader gets the value that a text gives a property of this type. -/
def GetsValue (r : VertexReader) (vOffset propId : Nat) (dtype : PropertyDataType) (text : Bytes) : Prop :=
  match dtype with
  | .int => ∃ n, readInt text = .ok n ∧ r.getInt vOffset propId = some n
  | .long => ∃ n, readLong text = .ok n ∧ r.getLong vOffset propId = some n
  | .string => r.getString vOffset propId = some text
  | _ => False

end VertexReader

def readerOf (s : GraphStore) (l : LabelStore) (layout : FragmentLayout) (readEpoch : Nat) : VertexReader :=
  { layout := layout, property := l.property, stringBuffer := s.strings.content, readEpoch := readEpoch }

/-! ### The layout -/

theorem wellLaid_of_agrees {maxItems : Nat} {dtypes : List PropertyDataType} {store : VertexLayout}
    {layout : FragmentLayout} (h : LayoutAgrees maxItems dtypes store layout) :
    WellLaid (store.colFamilies.map (ColumnFamily.settle maxItems)) store dtypes where
  found i dtype hdtype := by
    obtain ⟨p, col, hp, hcol, hin, hbit⟩ := h.inRange i dtype hdtype
    refine ⟨p, col.settle maxItems, hp, ?_, hin, hbit⟩
    rw [List.getElem?_map, hcol]
    rfl
  apart i j dtype dtype' p q hij hdtype hdtype' hp hq hsame := by
    obtain ⟨p', col, hp', hcol, -, -⟩ := h.inRange i dtype hdtype
    rw [hp] at hp'
    rw [← Option.some.inj hp'] at hcol
    obtain ⟨hcells, hbits⟩ := h.apart i j dtype dtype' p q col 0 0 hij hdtype hdtype' hp hq hsame hcol
    unfold ColumnFamily.cell at hcells
    unfold ColumnFamily.nullBit at hbits
    exact ⟨by omega, by omega⟩
  bit i dtype p hdtype hp := by
    obtain ⟨p', col, hp', hcol, -, -⟩ := h.inRange i dtype hdtype
    rw [hp] at hp'
    rw [← Option.some.inj hp'] at hcol
    exact (h.same i dtype p col hdtype hp hcol).2.2.2.1.symm
  rows col hcol := by
    obtain ⟨col', -, rfl⟩ := List.mem_map.mp hcol
    exact ColumnFamily.settle_pageSize_pos _ _

/-! ### The page -/

theorem wrap_epoch {e : Nat} (h : e < 2 ^ 31) : Decimal.wrap 32 e = e := by
  unfold Decimal.wrap
  exact Int.bmod_eq_of_le (by omega) (by omega)

theorem wrap_le_wrap {v e : Nat} (hv : v < 2 ^ 31) (he : e < 2 ^ 31) :
    Decimal.wrap 32 v ≤ Decimal.wrap 32 e ↔ v ≤ e := by
  rw [wrap_epoch hv, wrap_epoch he]
  exact Int.ofNat_le

theorem findPage_eq {w e : Nat} {chain : List Page} (hup : UpTo Page.ver w chain) (hw : w < 2 ^ 31)
    (he : e < 2 ^ 31) : findPage e chain = visible Page.ver e chain := by
  induction chain with
  | nil =>
    unfold findPage visible
    rw [List.find?_nil, List.find?_nil]
  | cons page older ih =>
    have hver := Nat.lt_of_le_of_lt (hup page List.mem_cons_self) hw
    have hrest := ih fun x hx => hup x (List.mem_cons_of_mem _ hx)
    rcases Nat.lt_or_ge e page.ver with hlt | hge
    · rw [visible_cons_of_lt hlt, ← hrest]
      refine List.find?_cons_of_neg ?_
      rw [decide_eq_true_iff, wrap_le_wrap hver he]
      exact Nat.not_le.mpr hlt
    · rw [visible_cons_of_le hge]
      refine List.find?_cons_of_pos ?_
      rw [decide_eq_true_iff, wrap_le_wrap hver he]
      exact hge

/-! ### Reading a row -/

section reading
variable {s : GraphStore} {c : LabelConfig} {store : VertexLayout} {layout : FragmentLayout}
  {dtypes : List PropertyDataType} {dtype : PropertyDataType} {l : LabelStore} {rows : Rows}
  {count w e off i : Nat} {texts : List Bytes} {text : Bytes}

/-- What the reader finds of a property in the page of a vertex. -/
structure Found (r : VertexReader) (strings : StringBuffer) (off i : Nat) (dtype : PropertyDataType) (text : Bytes)
    (m : Memory) (bit a : Nat) : Prop where
  valid : r.vertexPropValueIsValid off i = some (getBit m bit == false)
  addr : r.dataAddr off i = some (m, a)
  encodes : Encodes strings dtype (getBit m bit) m a text

theorem found_of_rows (h : LabelRows s.strings c store dtypes l rows count w)
    (hagree : LayoutAgrees c.vertexCapacity dtypes store layout) (hw : w < 2 ^ 31) (he : e < 2 ^ 31)
    (hrow : rows off e = some texts) (hdtype : dtypes[i]? = some dtype) (htext : texts[i]? = some text) :
    ∃ m bit addr, Found (readerOf s l layout e) s.strings off i dtype text m bit addr := by
  obtain ⟨place, col, hplace, hcol, -, -⟩ := hagree.inRange i dtype hdtype
  obtain ⟨hfamily, hoffset, hid, -, hnum, hlength⟩ := hagree.same i dtype place col hdtype hplace hcol
  have hcols : l.property.cols[place.family]? = some (col.settle c.vertexCapacity) := by
    rw [h.cols, List.getElem?_map, hcol]
    rfl
  obtain ⟨page, hvisible, hholds⟩ := (h.rows.family _ _ hcols).holds off e texts hrow
  rw [← findPage_eq ((h.rows.family _ _ hcols).upTo _) hw he] at hvisible
  have hpage : (readerOf s l layout e).page off i =
      some (place.family, (col.settle c.vertexCapacity).pageSize, page.content) := by
    unfold VertexReader.page readerOf
    dsimp only
    rw [hfamily, Option.bind_eq_bind, Option.bind_some, hcols]
    dsimp only [bind, Option.bind]
    rw [hvisible]
    rfl
  refine ⟨page.content, (col.settle c.vertexCapacity).nullBit (off % (col.settle c.vertexCapacity).pageSize)
    place.nullBit, (col.settle c.vertexCapacity).cell (off % (col.settle c.vertexCapacity).pageSize) place.offset,
    ?_, ?_, hholds i place dtype text hplace rfl hdtype htext⟩
  · unfold VertexReader.vertexPropValueIsValid
    rw [hpage]
    dsimp only [bind, Option.bind, readerOf]
    rw [hnum, hid]
    rfl
  · unfold VertexReader.dataAddr
    rw [hpage]
    dsimp only [bind, Option.bind, readerOf]
    rw [hnum, hlength, hoffset]
    dsimp only
    rw [← Int.natCast_add, Int.toNat_natCast]
    rfl

theorem loadInt_of_lt {m : Memory} {a : Nat} (h : load m a 8 < 2 ^ 63) : loadInt 64 m a = (load m a 8 : Nat) := by
  show Decimal.wrap 64 ((load m a 8 : Nat) : Int) = _
  generalize load m a 8 = key at h ⊢
  unfold Decimal.wrap
  exact Int.bmod_eq_of_le (by omega) (by omega)

theorem read_key {strings : StringBuffer} {key : Nat} (h : strings.Holds key text) :
    read strings.content ((key : Int) / 2 ^ 16).toNat ((key : Int) % 2 ^ 16).toNat = text := by
  have hoffset : ((key : Int) / 2 ^ 16).toNat = key >>> 16 := by
    rw [Nat.shiftRight_eq_div_pow]
    omega
  have hmask : key &&& 0xffff = key % 2 ^ 16 := Nat.and_two_pow_sub_one_eq_mod key 16
  have hlength := h.length
  rw [hmask] at hlength
  have hlen : ((key : Int) % 2 ^ 16).toNat = text.length := by omega
  rw [hoffset, hlen]
  exact h.content

theorem getsValue_of_valueAt {r : VertexReader} {strings : StringBuffer} {m : Memory} {addr : Nat}
    (haddr : r.dataAddr off i = some (m, addr)) (hstrings : r.stringBuffer = strings.content)
    (hvalue : ValueAt strings dtype m addr text) : r.GetsValue off i dtype text := by
  have hlong : r.getLong off i = some (loadInt 64 m addr) := by
    unfold VertexReader.getLong
    rw [haddr]
    rfl
  cases dtype with
  | int =>
    refine ⟨loadInt 32 m addr, hvalue, ?_⟩
    unfold VertexReader.getInt
    rw [haddr]
    rfl
  | long => exact ⟨loadInt 64 m addr, hvalue, hlong⟩
  | string =>
    have hholds : strings.Holds (load m addr 8) text := hvalue
    rw [loadInt_of_lt hholds.lt] at hlong
    show r.getString off i = some text
    unfold VertexReader.getString
    rw [hlong, hstrings, Option.map_some, read_key hholds]
  | _ => exact hvalue.elim

theorem Found.getsValue {r : VertexReader} {strings : StringBuffer} {m : Memory} {bit addr : Nat}
    (h : Found r strings off i dtype text m bit addr) (hstrings : r.stringBuffer = strings.content)
    (hne : text ≠ []) : r.GetsValue off i dtype text :=
  getsValue_of_valueAt h.addr hstrings (h.encodes.value hne)

end reading

def threeColumns : GraphMapping :=
  { vertexTypes := [{
      name := "person"
      tableSchema := [("a", "int"), ("b", "bigint"), ("c", "text")]
      propInfo := [{ property := "A", dataField := "a", columnFamily := some 0 },
        { property := "B", dataField := "b", columnFamily := some 1 },
        { property := "C", dataField := "c", columnFamily := some 0 }] }]
    edgeTypes := [] }

def oneLabel : StoreConfig :=
  { totalPartitions := 1
    localPid := 0
    label := fun _ => { vertexCapacity := 4, blockSize := 2 ^ 20, ovVertexCapacity := 4, ovBlockSize := 2 ^ 20
                        externalIdIsString := true, blankTable := fun _ => 0 }
    edgeIsUndirected := []
    strings := { capacity := 100, content := fun _ => 0, capacity_le := hundred_le }
    regions := { capacity := 2 ^ 20, blank := fun _ => 0 }
    globalVertexMap := false
    assignOther := fun _ m _ _ => m }

/-- A vertex with the values 5, 7 and "xy", of which an update takes the first and changes the last to "z". -/
def twoCalls : List VertexCall :=
  [.insert true 1 0 [118] [[53], [55], [120, 121]], .update 2 0 [[], [55], [122]]]

theorem twoCalls_run : ∃ sb defs s ds layout l, initGraphSchema threeColumns = .ok sb ∧
    sb.schema.fillJson = .ok defs ∧ twoCalls.foldlM GraphStore.applyVertexCall (GraphStore.create oneLabel sb) = .ok s ∧
    defs[0]? = some ds ∧ FragmentLayout.init ds = .ok layout ∧ s.labels[0]? = some l := by
  have hrun : ((initGraphSchema threeColumns).toOption.bind fun sb => sb.schema.fillJson.toOption.bind fun defs =>
      (twoCalls.foldlM GraphStore.applyVertexCall (GraphStore.create oneLabel sb)).toOption.bind fun s =>
      defs[0]?.bind fun ds => (FragmentLayout.init ds).toOption.bind fun _ => s.labels[0]?.map fun _ => ()) =
          some () := by
    decide +kernel
  obtain ⟨sb, hsb, hrun⟩ := Option.bind_eq_some_iff.mp hrun
  obtain ⟨defs, hdefs, hrun⟩ := Option.bind_eq_some_iff.mp hrun
  obtain ⟨s, hs, hrun⟩ := Option.bind_eq_some_iff.mp hrun
  obtain ⟨ds, hds, hrun⟩ := Option.bind_eq_some_iff.mp hrun
  obtain ⟨layout, hlayout, hrun⟩ := Option.bind_eq_some_iff.mp hrun
  obtain ⟨l, hl, -⟩ := Option.map_eq_some_iff.mp hrun
  exact ⟨sb, defs, s, ds, layout, l, ok_of_toOption hsb, ok_of_toOption hdefs, ok_of_toOption hs, hds,
    ok_of_toOption hlayout, hl⟩

end Gart.Fragment
