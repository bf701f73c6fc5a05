import Gart.Converter.Json
import Gart.Lib.BitArray
import Gart.Lib.Versions
import Gart.Store.Buffers
import Gart.Store.PageLayout

/-!
# The property store (property_col_paged.cc)

`PropertyColPaged` keeps the properties of the vertices of a label. Every column family
has pages of rows, and every page a chain of versions. A row is built in `prop_buffer`
and copied into the newest version of its page.
-/

namespace Gart.Store
open Gart.ByteMemory Gart.BitArray Gart.Outcome

/-- `PropertyColPaged::Page` -/
structure Page where
  ver : Nat
  content : Memory

structure PropertyColPaged where
  maxItems : Nat
  cols : List ColumnFamily
  /-- the counter of `getNewOffset` -/
  header : Nat := 0
  /-- The versions of a page of a family, newest first: `pages` is the first of them and
  `old_pages` the last. -/
  pages : Nat → Nat → List Page := fun _ _ => []

namespace PropertyColPaged

/-- The constructor. -/
def create (layout : VertexLayout) (maxItems : Nat) : PropertyColPaged :=
  { maxItems := maxItems, cols := layout.colFamilies.map (ColumnFamily.settle maxItems) }

/-- `Property::getNewOffset` (`property.h:149-153`) -/
def getNewOffset (p : PropertyColPaged) : Nat × PropertyColPaged :=
  (p.header, { p with header := p.header + 1 })

end PropertyColPaged

/-! ### Values -/

def textOf (text : Bytes) : String := String.ofList (text.map fun b => Char.ofNat b.toNat)

def readInt (text : Bytes) : Except StoreFault Int :=
  (Converter.stoi (textOf text)).mapError fun _ => .badNumber

def readLong (text : Bytes) : Except StoreFault Int :=
  (Converter.stoll (textOf text)).mapError fun _ => .badNumber

/-- `*(int*) p` and `*(int64_t*) p` -/
def loadInt (w : Nat) (m : Memory) (a : Nat) : Int := Decimal.wrap w (load m a (w / 8))

def storeInt (w : Nat) (m : Memory) (a : Nat) (n : Int) : Memory :=
  store m a (w / 8) (n % 2 ^ w).toNat

/-! ### Pages -/

/-- The bytes of a `Page` in front of its content. -/
def pageHeaderSize : Nat := 48

/-- `getNewPage_` (`property_col_paged.cc:140-168`); the size of the region is a 32-bit number. -/
def getNewPage (col : ColumnFamily) (ver : Nat) (prev : Option Page) (buf : RegionBuffer) :
    Except StoreFault (Page × RegionBuffer) := do
  let pgSz := (pageHeaderSize + col.vlen * col.pageSize + byteSize (col.pageSize * col.columnNum)) % 2 ^ 32
  let (offset, buf) ← buf.getRegion pgSz
  if pgSz < pageHeaderSize + col.contentSize then .error .outOfBounds
  else
    let blank : Memory := fun x => buf.blank (offset + pageHeaderSize + x)
    let content := match prev with
      | none => blank
      | some page => if col.pageSize ≠ 1 then page.content else blank
    return ({ ver := ver, content := content }, buf)

/-- `findWithInsertPage_` (`property_col_paged.cc:170-209`). The first page is made with the version -1 and takes the
version of the call at once. -/
def findWithInsertPage (col : ColumnFamily) (version : Nat) (chain : List Page) (buf : RegionBuffer) :
    Except StoreFault (List Page × RegionBuffer) :=
  match chain with
  | [] => do
    let (page, buf) ← getNewPage col version none buf
    return ([page], buf)
  | page :: older =>
    if page.ver < version then do
      let (newPage, buf) ← getNewPage col version (some page) buf
      return (newPage :: page :: older, buf)
    else .ok (page :: older, buf)

def Page.putRow (col : ColumnFamily) (row : Nat) (bytes : Bytes) (nulls : List Bool) (page : Page) : Page :=
  { page with content := putBits (write page.content (col.cell row 0) bytes) (col.nullBit row 0) nulls }

/-- What the loop over the properties builds for each family: `prop_buffer`,
`prop_value_is_null` and `col_family_updated`. -/
structure RowBuild where
  propBuffer : Nat → Memory
  isNull : Nat → List Bool := fun _ => []
  updated : Nat → Bool := fun _ => false

namespace RowBuild

def pushNull (b : RowBuild) (family : Nat) (null : Bool) : RowBuild :=
  { b with isNull := Function.update b.isNull family (b.isNull family ++ [null]) }

def setBuffer (b : RowBuild) (family : Nat) (m : Memory) : RowBuild :=
  { b with propBuffer := Function.update b.propBuffer family m }

def mark (b : RowBuild) (family : Nat) (changed : Bool) : RowBuild :=
  if changed then { b with updated := Function.update b.updated family true } else b

end RowBuild

namespace PropertyColPaged

/-- The row of a family goes into the newest version of its page. -/
def putFamily (b : RowBuild) (off ver family : Nat) (s : PropertyColPaged × RegionBuffer) :
    Except StoreFault (PropertyColPaged × RegionBuffer) :=
  match s.1.cols[family]? with
  | none => .error .outOfBounds
  | some col => do
    let pgNum := off / col.pageSize
    let (chain, buf) ← findWithInsertPage col ver (s.1.pages family pgNum) s.2
    let row := read (b.propBuffer family) 0 col.vlen
    let chain := chain.modifyHead (Page.putRow col (off % col.pageSize) row (b.isNull family))
    return ({ s.1 with
      pages := Function.update s.1.pages family (Function.update (s.1.pages family) pgNum chain) }, buf)

/-! ### insert -/

/-- The first loop of `insert` for one property; a string comes as its key in decimal. Here are INT, LONG and STRING;
`insertPropTyped` has FLOAT and DOUBLE as well, which the source also stores. -/
def insertProp (p : PropertyColPaged) (layout : VertexLayout) (dtypes : List PropertyDataType)
    (b : RowBuild) (prop : Bytes × Nat) : Except StoreFault RowBuild :=
  match placeOf layout prop.2, dtypes[prop.2]? with
  | some place, some dtype =>
    if p.cols.length ≤ place.family then .error .outOfBounds
    else
      let buffer := b.propBuffer place.family
      match dtype with
      | .int =>
        if prop.1 = [] then .ok (b.pushNull place.family true)
        else do
          let n ← readInt prop.1
          let b := b.pushNull place.family false
          return b.setBuffer place.family (storeInt 32 buffer place.offset n)
      | .long =>
        if prop.1 = [] then .ok (b.pushNull place.family true)
        else do
          let n ← readLong prop.1
          let b := b.pushNull place.family false
          return b.setBuffer place.family (storeInt 64 buffer place.offset n)
      | .string => do
        let key ← readLong prop.1
        if key % 2 ^ 16 = 0 then return b.pushNull place.family true
        else
          let b := b.pushNull place.family false
          return b.setBuffer place.family (storeInt 64 buffer place.offset key)
      | _ => .error .unsupported
  | _, _ => .error .outOfBounds

/-- `PropertyColPaged::insert` for a list of values (`property_col_paged.cc:271-358`); `prop_buffer` is not
initialised. -/
def insert (p : PropertyColPaged) (buf : RegionBuffer) (layout : VertexLayout)
    (dtypes : List PropertyDataType) (off ver : Nat) (vList : List Bytes) :
    Except StoreFault (PropertyColPaged × RegionBuffer) :=
  if p.maxItems ≤ off then .error .outOfBounds
  else do
    let b ← vList.zipIdx.foldlM (p.insertProp layout dtypes) { propBuffer := fun _ => buf.blank }
    (List.range p.cols.length).foldlM (fun s family => putFamily b off ver family s) (p, buf)

/-! ### update -/

/-- The first loop of `update` for one property; `updatePropTyped` has FLOAT and DOUBLE as well. -/
def updateProp (p : PropertyColPaged) (layout : VertexLayout) (dtypes : List PropertyDataType) (off : Nat)
    (s : RowBuild × StringBuffer) (prop : Bytes × Nat) : Except StoreFault (RowBuild × StringBuffer) :=
  match placeOf layout prop.2, dtypes[prop.2]? with
  | some place, some dtype =>
    match p.cols[place.family]? with
    | none => .error .outOfBounds
    | some col =>
      match p.pages place.family (off / col.pageSize) with
      | [] => .error .nullPointer
      | page :: _ =>
        let oldIsNull := getBit page.content (col.nullBit (off % col.pageSize) place.nullBit)
        let dst := col.cell (off % col.pageSize) place.offset
        let buffer := s.1.propBuffer place.family
        if prop.1 = [] then
          .ok ((s.1.pushNull place.family true).mark place.family !oldIsNull, s.2)
        else
          let b := s.1.pushNull place.family false
          match dtype with
          | .int => do
            let n ← readInt prop.1
            let b := b.setBuffer place.family (storeInt 32 buffer place.offset n)
            return (b.mark place.family (oldIsNull || n != loadInt 32 page.content dst), s.2)
          | .long => do
            let n ← readLong prop.1
            let b := b.setBuffer place.family (storeInt 64 buffer place.offset n)
            return (b.mark place.family (oldIsNull || n != loadInt 64 page.content dst), s.2)
          | .string =>
            let oldKey := load page.content dst 8
            if oldIsNull || s.2.getString oldKey != prop.1 then do
              let (key, strings) ← s.2.putCstring prop.1
              let b := b.setBuffer place.family (store buffer place.offset 8 key)
              return (b.mark place.family true, strings)
            else
              .ok (b.setBuffer place.family (store buffer place.offset 8 oldKey), s.2)
          | _ => .error .unsupported
  | _, _ => .error .outOfBounds

/-- `PropertyColPaged::update` for a list of values (`property_col_paged.cc:360-477`). -/
def update (p : PropertyColPaged) (buf : RegionBuffer) (strings : StringBuffer) (layout : VertexLayout)
    (dtypes : List PropertyDataType) (off ver : Nat) (vList : List Bytes) :
    Except StoreFault (PropertyColPaged × RegionBuffer × StringBuffer) := do
  let (b, strings) ← vList.zipIdx.foldlM (p.updateProp layout dtypes off)
    ({ propBuffer := fun _ => buf.blank }, strings)
  let (p, buf) ← (List.range p.cols.length).foldlM
    (fun s family => if b.updated family then putFamily b off ver family s else .ok s) (p, buf)
  return (p, buf, strings)

end PropertyColPaged

end Gart.Store
