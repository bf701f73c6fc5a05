import Gart.Fragment.VertexProps
import Gart.Store.TypedRows

/-!
# The types of vertex properties

The schema admits types that the switch of `insert` has no branch for. Their values are not stored, but their null
bits are down, so a reader takes what `malloc` left in the buffer of the row.
-/

namespace Gart.Fragment
open Gart.ByteMemory Gart.BitArray Gart.Outcome Gart.GroupLayout Gart.Versions Gart.Store

/-- `GetData<T>` for a `T` of `size` bytes (`gart_fragment.h:865-869`). -/
def VertexReader.getBytes (r : VertexReader) (vOffset propId size : Nat) : Option Bytes :=
  (r.dataAddr vOffset propId).map fun at' => read at'.1 at'.2 size

/-- The bytes of a value as the properties of edges have it: what `assign_prop` makes of the text. -/
def valueBytes (s : GraphStore) (dtype : PropertyDataType) (text : Bytes) : Bytes :=
  read (s.assignProp dtype (fun _ => 0) 0 text) 0 dtype.size

def VertexReader.GetsTyped (r : VertexReader) (floats : FloatOps) (s : GraphStore) (vOffset propId : Nat)
    (dtype : PropertyDataType) (text : Bytes) : Prop :=
  match dtype with
  | .int | .long | .string => r.GetsValue vOffset propId dtype text
  | .float => ∃ x, floats.stof text = .ok x ∧ (r.getBytes vOffset propId 4).map ofBytes = some x.toNat
  | .double => ∃ x, floats.stod text = .ok x ∧ (r.getBytes vOffset propId 8).map ofBytes = some x.toNat
  | dtype => r.getBytes vOffset propId dtype.size = some (valueBytes s dtype text)

section reading
variable {floats : FloatOps} {s s' : GraphStore} {r : VertexReader} {strings : StringBuffer} {off i : Nat}
variable {dtype : PropertyDataType} {text old : Bytes} {content : Memory} {addr : Nat}

theorem length_of_getsTyped (h : r.GetsTyped floats s off i .string text) : text.length < 2 ^ 16 := by
  have h : r.getString off i = some text := h
  unfold VertexReader.getString at h
  obtain ⟨value, -, rfl⟩ := Option.map_eq_some_iff.mp h
  rw [read_length]
  omega

theorem getsTyped_of_storedAt (hstored : dtype.Stored) (haddr : r.dataAddr off i = some (content, addr))
    (hstrings : r.stringBuffer = strings.content) (h : StoredAt floats strings dtype content addr text) :
    r.GetsTyped floats s off i dtype text := by
  cases dtype with
  | int => exact getsValue_of_valueAt haddr hstrings (show ValueAt strings .int content addr text from h)
  | long => exact getsValue_of_valueAt haddr hstrings (show ValueAt strings .long content addr text from h)
  | string => exact getsValue_of_valueAt haddr hstrings (show ValueAt strings .string content addr text from h)
  | float =>
    obtain ⟨x, hx, hload⟩ := h
    refine ⟨x, hx, ?_⟩
    unfold VertexReader.getBytes
    rw [haddr]
    exact congrArg some hload
  | double =>
    obtain ⟨x, hx, hload⟩ := h
    refine ⟨x, hx, ?_⟩
    unfold VertexReader.getBytes
    rw [haddr]
    exact congrArg some hload
  | _ => exact hstored.elim

theorem getsTyped_iff_of_not_stored (hnot : ¬ dtype.Stored) (haddr : r.dataAddr off i = some (content, addr))
    (h : read content addr dtype.size = old) :
    r.GetsTyped floats s off i dtype text ↔ old = valueBytes s dtype text := by
  have hbytes : r.getBytes off i dtype.size = some old := by
    unfold VertexReader.getBytes
    rw [haddr]
    exact congrArg some h
  have hiff : r.getBytes off i dtype.size = some (valueBytes s dtype text) ↔ old = valueBytes s dtype text := by
    rw [hbytes]
    exact Option.some_inj
  cases dtype with
  | int => exact absurd trivial hnot
  | long => exact absurd trivial hnot
  | string => exact absurd trivial hnot
  | float => exact absurd trivial hnot
  | double => exact absurd trivial hnot
  | _ => exact hiff

end reading

/-! ### The layout of a label whose rows are inserted -/

/-- When all properties of a label find their families, its families are numbered without a gap. -/
theorem dense_of_places {m : GraphMapping} {sb : SchemaBuild} {label : Nat} {v : LabelMapping} {store : VertexLayout}
    (hsb : initGraphSchema m = .ok sb) (hv : m.vertexTypes[label]? = some v) (hstore : sb.layouts[label]? = some store)
    (hfound : ∀ j < (sb.dtypesOf label).length, ∃ place, placeOf store j = some place ∧
      place.family < store.colFamilies.length) : Dense (familiesOf v.propInfo) := by
  obtain ⟨⟨-, hlaid⟩, -⟩ := (initGraphSchema_spec m).of_ok hsb
  obtain ⟨b, hplaced, hfamilies, hlayout, hprops⟩ := hlaid.laid label v hv
  rw [hstore] at hlayout
  have hstore' := Option.some.inj hlayout
  refine dense_of_found hplaced hfamilies fun f hf => ?_
  rw [← hfamilies] at hf
  obtain ⟨prop, hprop, rfl⟩ := List.mem_map.mp hf
  obtain ⟨j, hj⟩ := List.mem_iff_getElem?.mp hprop
  have hlt : j < (sb.dtypesOf label).length := by
    unfold SchemaBuild.dtypesOf
    rw [hprops, Option.getD_some, List.length_map]
    exact (List.getElem?_eq_some_iff.mp hj).1
  obtain ⟨place, hplace, hfamily⟩ := hfound j hlt
  rw [hstore', placeOf_of_placed hplaced _ hj] at hplace
  rw [hstore', ← Option.some.inj hplace] at hfamily
  exact hfamily

/-! ### Rows of all types -/

theorem cell_of_rowPut {floats : FloatOps} {s : GraphStore} {maxItems w e off i : Nat} {store : VertexLayout}
    {dtypes : List PropertyDataType} {layout : FragmentLayout} {dtype : PropertyDataType} {l : LabelStore}
    {p : PropertyColPaged} {buf : RegionBuffer} {b : RowBuild} {heap : Nat → Memory} {place : Place} {text : Bytes}
    (hagree : LayoutAgrees maxItems dtypes store layout)
    (hcols : p.cols = store.colFamilies.map (ColumnFamily.settle maxItems)) (hplace : placeOf store i = some place)
    (hdtype : dtypes[i]? = some dtype)
    (hput : RowPut p b off w (List.range p.cols.length) (l.property, buf))
    (hrow : TargetInv floats s.strings p.cols store heap place dtype text i dtypes.length b)
    (hw : w ≤ e) (he : e < 2 ^ 31) :
    ∃ content addr, (readerOf s l layout e).vertexPropValueIsValid off i = some true ∧
      (readerOf s l layout e).dataAddr off i = some (content, addr) ∧
      CellOf floats s.strings dtype (read (heap place.family) place.offset dtype.size) content addr text := by
  have hi := (List.getElem?_eq_some_iff.mp hdtype).1
  have hlaid := wellLaid_of_agrees hagree
  obtain ⟨place', col, hplace', hcol, hin, -⟩ := hagree.inRange i dtype hdtype
  rw [hplace] at hplace'
  rw [← Option.some.inj hplace'] at hcol hin
  obtain ⟨hfamily, hoffset, hid, -, hnum, hdata⟩ := hagree.same i dtype place col hdtype hplace hcol
  have hsettle : p.cols[place.family]? = some (col.settle maxItems) := by
    rw [hcols, List.getElem?_map, hcol]
    rfl
  have hcols' : l.property.cols[place.family]? = some (col.settle maxItems) := by
    rw [hput.cols]
    exact hsettle
  have hfits := hrow.flagged.fits place.family (col.settle maxItems) hsettle
  have hpos : off % (col.settle maxItems).pageSize < (col.settle maxItems).pageSize :=
    Nat.mod_lt _ (ColumnFamily.settle_pageSize_pos _ _)
  obtain ⟨page, hvisible⟩ := hput.put place.family
    (List.mem_range.mpr (List.getElem?_eq_some_iff.mp hsettle).1) _ hsettle
  have hvisible := hvisible e hw
  rw [← findPage_eq (hput.upTo _ _) (Nat.lt_of_le_of_lt hw he) he] at hvisible
  obtain ⟨hbits, hcells⟩ := @putRow_same (col.settle maxItems) (off % (col.settle maxItems).pageSize)
    (read (b.propBuffer place.family) 0 (col.settle maxItems).vlen) (b.isNull place.family) page
    (b.propBuffer place.family) hpos hfits
  generalize hcontent : Page.putRow (col.settle maxItems) (off % (col.settle maxItems).pageSize)
    (read (b.propBuffer place.family) 0 (col.settle maxItems).vlen) (b.isNull place.family) page = row at *
  have hpage : (readerOf s l layout e).page off i =
      some (place.family, (col.settle maxItems).pageSize, row.content) := by
    unfold VertexReader.page readerOf
    dsimp only
    rw [hfamily, Option.bind_eq_bind, Option.bind_some, hcols']
    dsimp only [bind, Option.bind]
    rw [hvisible]
    rfl
  have hbit : place.nullBit < (b.isNull place.family).length := by
    have hle : (store.propColumnFamily.take (i + 1)).count place.family ≤
        (store.propColumnFamily.take dtypes.length).count place.family :=
      (List.take_sublist_take_left hi).count_le place.family
    rw [count_take_succ hplace, if_pos rfl] at hle
    rw [hrow.flagged.length, hlaid.bit i dtype place hdtype hplace]
    omega
  refine ⟨row.content,
    (col.settle maxItems).cell (off % (col.settle maxItems).pageSize) place.offset, ?_, ?_, ?_⟩
  · unfold VertexReader.vertexPropValueIsValid
    rw [hpage]
    dsimp only [bind, Option.bind, readerOf]
    rw [hnum, hid]
    have hdown := (hbits place.nullBit hbit).trans (hrow.flag hi)
    exact congrArg (fun bit => some (bit == false)) hdown
  · unfold VertexReader.dataAddr
    rw [hpage]
    dsimp only [bind, Option.bind, readerOf]
    rw [hnum, hdata, hoffset]
    dsimp only
    rw [← Int.natCast_add, Int.toNat_natCast]
    rfl
  · exact (hrow.cell hi).congr (hcells place.offset dtype.size hin)

/-- After `insert_inner_vertex` has stored a row, a reader gets a value of it that is not null if and only if its type
is a number or a string (a string of less than 2^16 bytes), or else if the memory that `malloc` gave for the buffer
happened to have the value. -/
theorem typeCoverage_iff {m : GraphMapping} {sb : SchemaBuild} {defs : List (List PropDef)} {c : StoreConfig}
    {floats : FloatOps} {calls : List TypedCall} {s s' : GraphStore} {recycle : Bool} {epoch gid i e : Nat}
    {externalId text : Bytes} {vprop : List Bytes} {heap : Nat → Memory} {ds : List PropDef} {layout : FragmentLayout}
    {l l' : LabelStore} {dtype : PropertyDataType}
    (hsb : initGraphSchema m = .ok sb) (hdefs : sb.schema.fillJson = .ok defs)
    (hsorted : (calls.map fun call => call.call.epoch).Pairwise (· ≤ ·))
    (hlast : ∀ call ∈ calls, call.call.epoch ≤ epoch)
    (hrun : calls.foldlM (GraphStore.applyTypedCall floats) (GraphStore.create c sb) = .ok s)
    (hinsert : s.insertInnerVertexTyped floats recycle epoch gid externalId vprop heap = .ok s')
    (hlocal : (IdParser.init c.totalPartitions).getFid gid = c.localPid)
    (hl : s.labels[(IdParser.init c.totalPartitions).getLabelId gid]? = some l)
    (hl' : s'.labels[(IdParser.init c.totalPartitions).getLabelId gid]? = some l')
    (hds : defs[(IdParser.init c.totalPartitions).getLabelId gid]? = some ds)
    (hlayout : FragmentLayout.init ds = .ok layout) (hepoch : epoch ≤ e) (he : e < 2 ^ 31)
    (hlength : vprop.length = (sb.dtypesOf ((IdParser.init c.totalPartitions).getLabelId gid)).length)
    (hdtype : (sb.dtypesOf ((IdParser.init c.totalPartitions).getLabelId gid))[i]? = some dtype)
    (htext : vprop[i]? = some text) (hne : text ≠ []) :
    ((readerOf s' l' layout e).vertexPropValueIsValid l.graph.vertexId i = some true ∧
      (readerOf s' l' layout e).GetsTyped floats s l.graph.vertexId i dtype text) ↔
    (dtype.Stored ∧ (dtype = .string → text.length < 2 ^ 16)) ∨
      (¬ dtype.Stored ∧ ∃ place, placeOf l.layout i = some place ∧
        read (heap place.family) place.offset dtype.size = valueBytes s dtype text) := by
  by_cases hshort : dtype = .string → text.length < 2 ^ 16
  · obtain ⟨w, hw, hinv⟩ := (typedInv_create c sb).run
      (List.pairwise_cons.mpr ⟨fun e _ => Nat.zero_le e, hsorted⟩) hrun
    have hwle : w ≤ epoch := by
      rcases List.mem_cons.mp hw with rfl | hw
      · exact Nat.zero_le _
      · obtain ⟨call, hcall, rfl⟩ := List.mem_map.mp hw
        exact hlast call hcall
    have hinv := hinv.mono hwle
    obtain ⟨l₁, l₁', hone, hcases⟩ := insertInnerVertexTyped_cases hinsert
    rw [hinv.idParser] at hone
    rw [hinv.idParser, hinv.localPid] at hcases
    generalize (IdParser.init c.totalPartitions).getLabelId gid = label at *
    have hbefore := hone.before
    have hafter := hone.after label
    rw [if_pos rfl, hl'] at hafter
    rw [hl] at hbefore
    obtain rfl := Option.some.inj hbefore
    obtain rfl := Option.some.inj hafter
    rcases hcases with ⟨hfid, -⟩ | ⟨-, hl₁⟩
    · exact absurd hlocal hfid
    obtain ⟨strings, args, hargs, hproperty⟩ := hl₁.property
    obtain ⟨store, hstore, hsame, hdtypes, hcols, hup⟩ := hinv.label label l hl
    rw [hsame, hdtypes] at hproperty
    rw [hdtypes] at hargs
    obtain ⟨hext, hargsLength, hgiven⟩ := putStrings_each hargs
    obtain ⟨b, hbuild, hput⟩ := insertTyped_spec (p := l.property.getNewOffset.2) hup hproperty
    obtain ⟨v, hv⟩ : ∃ v, m.vertexTypes[label]? = some v := by
      obtain ⟨⟨-, hlaid⟩, -⟩ := (initGraphSchema_spec m).of_ok hsb
      have hlt := (List.getElem?_eq_some_iff.mp hstore).1
      rw [hlaid.length] at hlt
      exact ⟨_, List.getElem?_eq_getElem hlt⟩
    have hdense := dense_of_places hsb hv hstore fun j hj => by
      have hfamilies := families_of_build hbuild j (by rw [hargsLength, hlength]; exact hj)
      have hcount : l.property.getNewOffset.2.cols.length = store.colFamilies.length := by
        show l.property.cols.length = _
        rw [hcols, List.length_map]
      rw [hcount] at hfamilies
      exact hfamilies
    obtain ⟨props, store', ds', layout', hprops, hstore', hds', hlayout', hagree⟩ :=
      agrees_of_published (c.label label).vertexCapacity hsb hdefs hv hdense
    have htypes : props.map SchemaProp.dtype = sb.dtypesOf label := by
      unfold SchemaBuild.dtypesOf
      rw [hprops, Option.getD_some]
    rw [hstore] at hstore'
    rw [hds] at hds'
    rw [← Option.some.inj hds', hlayout] at hlayout'
    rw [← Option.some.inj hstore', ← Except.ok.inj hlayout', htypes] at hagree
    obtain ⟨place, -, hplace, -, -, -⟩ := hagree.inRange i dtype hdtype
    obtain ⟨arg, harg⟩ : ∃ arg, args[i]? = some arg := by
      have hlt := (List.getElem?_eq_some_iff.mp htext).1
      exact ⟨_, List.getElem?_eq_getElem (by rw [hargsLength]; exact hlt)⟩
    have hlaid : WellLaid l.property.getNewOffset.2.cols store (sb.dtypesOf label) := by
      show WellLaid l.property.cols _ _
      rw [hcols]
      exact wellLaid_of_agrees hagree
    have hrow := target_of_build hlaid hplace hdtype hne (hargsLength.trans hlength) harg
      (hgiven i dtype text arg hdtype htext harg hshort) hbuild
    obtain ⟨content, addr, hvalid, haddr, hcell⟩ := @cell_of_rowPut floats s' _ epoch e _ i store
      (sb.dtypesOf label) layout dtype l' l.property.getNewOffset.2 _ b heap place text hagree hcols hplace hdtype hput
      hrow hepoch he
    unfold CellOf at hcell
    rw [hsame]
    by_cases hstored : dtype.Stored
    · rw [if_pos hstored] at hcell
      exact iff_of_true ⟨hvalid, getsTyped_of_storedAt hstored haddr rfl hcell⟩ (Or.inl ⟨hstored, hshort⟩)
    · rw [if_neg hstored] at hcell
      rw [and_iff_right hvalid, getsTyped_iff_of_not_stored hstored haddr hcell]
      constructor
      · intro hheap
        exact Or.inr ⟨hstored, place, hplace, hheap⟩
      · rintro (⟨h, -⟩ | ⟨-, place', hplace', hheap⟩)
        · exact absurd h hstored
        · rw [hplace] at hplace'
          rw [← Option.some.inj hplace'] at hheap
          exact hheap
  · have hstring : dtype = .string := by
      by_contra hother
      exact hshort fun h => absurd h hother
    have hlong : ¬ text.length < 2 ^ 16 := fun h => hshort fun _ => h
    subst hstring
    constructor
    · rintro ⟨-, hgets⟩
      exact absurd (length_of_getsTyped hgets) hlong
    · rintro (⟨-, hshort⟩ | ⟨hnot, -⟩)
      · exact absurd (hshort rfl) hlong
      · exact absurd trivial hnot

def noFloats : FloatOps :=
  { stof := fun _ => .error .badNumber, stod := fun _ => .error .badNumber
    neFloat := fun x y => x != y, neDouble := fun x y => x != y }

/-- The string of a row with a number, a long number and a string. -/
theorem typeCoverage_iff_string : ∃ (s s' : GraphStore) (l l' : LabelStore) (layout : FragmentLayout),
    s.insertInnerVertexTyped noFloats true 1 0 [118] [[53], [55], [120, 121]] (fun _ _ => 0) = .ok s' ∧
      s.labels[0]? = some l ∧ s'.labels[0]? = some l' ∧
      (readerOf s' l' layout 1).vertexPropValueIsValid l.graph.vertexId 2 = some true ∧
      (readerOf s' l' layout 1).getString l.graph.vertexId 2 = some [120, 121] := by
  have hrun : ((initGraphSchema threeColumns).toOption.bind fun sb => sb.schema.fillJson.toOption.bind fun defs =>
      ((GraphStore.create oneLabel sb).insertInnerVertexTyped noFloats true 1 0 [118] [[53], [55], [120, 121]]
        (fun _ _ => 0)).toOption.bind fun s' =>
      defs[0]?.bind fun ds => (FragmentLayout.init ds).toOption.bind fun _ =>
      (GraphStore.create oneLabel sb).labels[0]?.bind fun _ => s'.labels[0]?.map fun _ => sb.dtypesOf 0) =
        some [.int, .long, .string] := by
    decide +kernel
  obtain ⟨sb, hsb, hrun⟩ := Option.bind_eq_some_iff.mp hrun
  obtain ⟨defs, hdefs, hrun⟩ := Option.bind_eq_some_iff.mp hrun
  obtain ⟨s', hs', hrun⟩ := Option.bind_eq_some_iff.mp hrun
  obtain ⟨ds, hds, hrun⟩ := Option.bind_eq_some_iff.mp hrun
  obtain ⟨layout, hlayout, hrun⟩ := Option.bind_eq_some_iff.mp hrun
  obtain ⟨l, hl, hrun⟩ := Option.bind_eq_some_iff.mp hrun
  obtain ⟨l', hl', hdtypes⟩ := Option.map_eq_some_iff.mp hrun
  refine ⟨GraphStore.create oneLabel sb, s', l, l', layout, ok_of_toOption hs', hl, hl', ?_⟩
  refine (@typeCoverage_iff threeColumns sb defs oneLabel noFloats [] (GraphStore.create oneLabel sb) s' true 1 0 2 1
    [118] [120, 121] [[53], [55], [120, 121]] (fun _ _ => 0) ds layout l l' .string (ok_of_toOption hsb)
    (ok_of_toOption hdefs) List.Pairwise.nil (fun call hcall => by cases hcall) rfl (ok_of_toOption hs')
    (by decide +kernel) hl hl' hds (ok_of_toOption hlayout) (by decide) (by decide) ?_ ?_ rfl (by decide)).mpr
    (Or.inl ⟨trivial, fun _ => by decide⟩)
  · show 3 = (sb.dtypesOf 0).length
    rw [hdtypes]
    rfl
  · show (sb.dtypesOf 0)[2]? = some .string
    rw [hdtypes]
    rfl

def dateColumn : GraphMapping :=
  { vertexTypes := [{
      name := "person"
      tableSchema := [("a", "date")]
      propInfo := [{ property := "A", dataField := "a", columnFamily := some 0 }] }]
    edgeTypes := [] }

/-- The date "18" of a vertex is marked as valid, and a reader gets what was in the buffer. -/
theorem typeCoverage_date : ∃ sb defs ds layout s' l', initGraphSchema dateColumn = .ok sb ∧
    sb.schema.fillJson = .ok defs ∧ defs[0]? = some ds ∧ FragmentLayout.init ds = .ok layout ∧
    sb.dtypesOf 0 = [.date] ∧
    (GraphStore.create oneLabel sb).insertInnerVertexTyped noFloats true 1 0 [118] [[49, 56]] (fun _ _ => 0) =
      .ok s' ∧ s'.labels[0]? = some l' ∧
    (readerOf s' l' layout 1).vertexPropValueIsValid 0 0 = some true ∧
    (readerOf s' l' layout 1).getBytes 0 0 4 = some [0, 0, 0, 0] ∧
    ¬ (readerOf s' l' layout 1).GetsTyped noFloats (GraphStore.create oneLabel sb) 0 0 .date [49, 56] := by
  have hrun : ((initGraphSchema dateColumn).toOption.bind fun sb => sb.schema.fillJson.toOption.bind fun defs =>
      ((GraphStore.create oneLabel sb).insertInnerVertexTyped noFloats true 1 0 [118] [[49, 56]]
        (fun _ _ => 0)).toOption.bind fun s' =>
      defs[0]?.bind fun ds => (FragmentLayout.init ds).toOption.bind fun layout => s'.labels[0]?.map fun l' =>
        (sb.dtypesOf 0, (readerOf s' l' layout 1).vertexPropValueIsValid 0 0,
          (readerOf s' l' layout 1).getBytes 0 0 4, valueBytes (GraphStore.create oneLabel sb) .date [49, 56])) =
        some ([.date], some true, some [0, 0, 0, 0], [18, 0, 0, 0]) := by
    decide +kernel
  obtain ⟨sb, hsb, hrun⟩ := Option.bind_eq_some_iff.mp hrun
  obtain ⟨defs, hdefs, hrun⟩ := Option.bind_eq_some_iff.mp hrun
  obtain ⟨s', hs', hrun⟩ := Option.bind_eq_some_iff.mp hrun
  obtain ⟨ds, hds, hrun⟩ := Option.bind_eq_some_iff.mp hrun
  obtain ⟨layout, hlayout, hrun⟩ := Option.bind_eq_some_iff.mp hrun
  obtain ⟨l', hl', hread⟩ := Option.map_eq_some_iff.mp hrun
  obtain ⟨hdtypes, hread⟩ := Prod.mk.inj hread
  obtain ⟨hvalid, hread⟩ := Prod.mk.inj hread
  obtain ⟨hbytes, hvalue⟩ := Prod.mk.inj hread
  refine ⟨sb, defs, ds, layout, s', l', ok_of_toOption hsb, ok_of_toOption hdefs, hds, ok_of_toOption hlayout, hdtypes,
    ok_of_toOption hs', hl', hvalid, hbytes, fun hgets => ?_⟩
  have hgets : (readerOf s' l' layout 1).getBytes 0 0 4 =
      some (valueBytes (GraphStore.create oneLabel sb) .date [49, 56]) := hgets
  rw [hbytes, hvalue] at hgets
  exact absurd hgets (by decide)

end Gart.Fragment
