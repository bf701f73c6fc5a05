import Gart.Store.PageLayout

/-!
# The layout of the vertex properties in a fragment

`GartFragment::Init` builds the families, offsets and null bits of a vertex label again
from the published schema.
-/

namespace Gart.Fragment
open Gart.GroupLayout Gart.Outcome Gart.Store

/-- `column_family_data_length_` grows by the bytes of a type that is known by its name. -/
def columnLength (dtype : String) : Option Nat :=
  if dtype = "INT" then some 4
  else if dtype = "FLOAT" then some 4
  else if dtype = "DOUBLE" then some 8
  else if dtype = "LONG" then some 8
  else if dtype = "CHAR" then some 1
  else if dtype = "STRING" then some 8
  else if dtype = "DATE" then some 4
  else if dtype = "DATETIME" then some 8
  else if dtype = "TIME" then some 8
  else if dtype = "TIMESTAMP" then some 22
  else none

theorem columnLength_typeStr (dtype : PropertyDataType) :
    columnLength dtype.typeStr = some dtype.size := by
  cases dtype <;> decide

/-- What the fragment keeps for the properties of a vertex label. The last two have an element
for each property, though their index is a family. -/
structure FragmentLayout where
  columnFamilyId : List Nat := []
  columnFamilyOffset : List Int := []
  idInColumnFamily : List Nat := []
  numPerColumnFamily : List Nat
  columnFamilyDataLength : List Nat
  deriving DecidableEq

namespace FragmentLayout

/-- The body of the loop over the properties. A family that has no element in the vectors, such
as a negative one, is accessed out of their bounds. -/
def addProp (l : FragmentLayout) (d : PropDef) : Except SchemaFault FragmentLayout :=
  match d.columnFamilyId with
  | .negSucc _ => .error .outOfBounds
  | .ofNat family =>
    match l.numPerColumnFamily[family]?, l.columnFamilyDataLength[family]? with
    | some num, some length =>
      match columnLength d.dtype.typeStr with
      | none => .error .typeError
      | some bytes =>
        .ok {
          columnFamilyId := l.columnFamilyId ++ [family]
          columnFamilyOffset := l.columnFamilyOffset ++ [d.columnFamilyOffset]
          idInColumnFamily := l.idInColumnFamily ++ [num]
          numPerColumnFamily := l.numPerColumnFamily.set family (num + 1)
          columnFamilyDataLength := l.columnFamilyDataLength.set family (length + bytes) }
    | _, _ => .error .outOfBounds

/-- The part of `Init` that reads the `propertyDefList` of a vertex label (`gart_fragment.h:62-451`). -/
def init (defs : List PropDef) : Except SchemaFault FragmentLayout :=
  defs.foldlM addProp
    { numPerColumnFamily := List.replicate defs.length 0
      columnFamilyDataLength := List.replicate defs.length 0 }

end FragmentLayout

/-! ### What the fragment computes -/

structure Read (numProps : Nat) (props : List SchemaProp) (l : FragmentLayout) : Prop where
  family : l.columnFamilyId = props.map SchemaProp.columnFamily
  offset : l.columnFamilyOffset = props.map fun prop : SchemaProp => (prop.columnFamilyOffset : Int)
  rankLength : l.idInColumnFamily.length = props.length
  rank : ∀ (i : Nat) (prop : SchemaProp), props[i]? = some prop →
    l.idInColumnFamily[i]? = some (number ((itemsOf props).take i) prop.columnFamily)
  numLength : l.numPerColumnFamily.length = numProps
  num : ∀ f < numProps, l.numPerColumnFamily[f]? = some (number (itemsOf props) f)
  lengthLength : l.columnFamilyDataLength.length = numProps
  length : ∀ f < numProps, l.columnFamilyDataLength[f]? = some (width (itemsOf props) f)

section reading
variable {numProps : Nat} {props : List SchemaProp} {l : FragmentLayout} {prop : SchemaProp} {d : PropDef}

theorem read_nil (n : Nat) : Read n []
    { numPerColumnFamily := List.replicate n 0, columnFamilyDataLength := List.replicate n 0 } := by
  constructor
  · rfl
  · rfl
  · rfl
  · intro i prop hprop
    cases hprop
  · exact List.length_replicate
  · intro f hf
    exact (List.getElem?_replicate).trans (if_pos hf)
  · exact List.length_replicate
  · intro f hf
    exact (List.getElem?_replicate).trans (if_pos hf)

theorem getElem?_set_group {xs : List Nat} {f family x y : Nat} (hf : f < xs.length)
    (hx : xs[f]? = some x) (hy : f = family → y = x) {more : Nat} :
    (xs.set family (y + more))[f]? = some (x + if family = f then more else 0) := by
  by_cases hsame : family = f
  · subst hsame
    rw [List.getElem?_set_self hf, if_pos rfl, hy rfl]
  · rw [List.getElem?_set_ne hsame, if_neg hsame, hx]
    rfl

theorem read_addProp (h : Read numProps props l) (hd : Published prop d)
    (hin : prop.columnFamily < numProps) :
    ∃ l', l.addProp d = .ok l' ∧ Read numProps (props ++ [prop]) l' := by
  have hend : (itemsOf props).take props.length = itemsOf props := by
    have hlength : props.length = (itemsOf props).length := (List.length_map _).symm
    rw [hlength, List.take_length]
  refine ⟨{
    columnFamilyId := l.columnFamilyId ++ [prop.columnFamily]
    columnFamilyOffset := l.columnFamilyOffset ++ [d.columnFamilyOffset]
    idInColumnFamily := l.idInColumnFamily ++ [number (itemsOf props) prop.columnFamily]
    numPerColumnFamily :=
      l.numPerColumnFamily.set prop.columnFamily (number (itemsOf props) prop.columnFamily + 1)
    columnFamilyDataLength := l.columnFamilyDataLength.set prop.columnFamily
      (width (itemsOf props) prop.columnFamily + prop.dtype.size) }, ?_, ?_⟩
  · unfold FragmentLayout.addProp
    rw [hd.columnFamilyId]
    dsimp only
    rw [h.num _ hin, h.length _ hin, hd.dtype, columnLength_typeStr]
  · constructor
    · simp only [h.family, List.map_append, List.map_singleton]
    · simp only [h.offset, hd.columnFamilyOffset, List.map_append, List.map_singleton]
    · simp only [h.rankLength, List.length_append, List.length_singleton]
    · intro i prop' hprop
      dsimp only
      rcases getElem?_concat_cases hprop with hold | ⟨rfl, rfl⟩
      · have hlt := (List.getElem?_eq_some_iff.mp hold).1
        rw [take_itemsOf_append (Nat.le_of_lt hlt),
          List.getElem?_append_left (by rw [h.rankLength]; exact hlt)]
        exact h.rank i prop' hold
      · rw [take_itemsOf_append (Nat.le_refl _), hend,
          List.getElem?_append_right (Nat.le_of_eq h.rankLength), h.rankLength,
          Nat.sub_self]
        rfl
    · exact List.length_set.trans h.numLength
    · intro f hf
      rw [itemsOf_append, number_append]
      unfold itemsOf SchemaProp.item
      rw [List.map_singleton, number_singleton]
      refine getElem?_set_group (by rw [h.numLength]; exact hf) (h.num f hf) ?_
      rintro rfl
      rfl
    · exact List.length_set.trans h.lengthLength
    · intro f hf
      rw [itemsOf_append, width_append]
      unfold itemsOf SchemaProp.item
      rw [List.map_singleton, width_singleton]
      refine getElem?_set_group (by rw [h.lengthLength]; exact hf) (h.length f hf) ?_
      rintro rfl
      rfl

theorem read_foldlM {done more : List SchemaProp} {ds : List PropDef}
    (hin : ∀ prop ∈ more, prop.columnFamily < numProps) (hds : List.Forall₂ Published more ds)
    (h : Read numProps done l) :
    ∃ l', ds.foldlM FragmentLayout.addProp l = .ok l' ∧ Read numProps (done ++ more) l' := by
  induction hds generalizing done l with
  | nil =>
    rw [List.append_nil]
    exact ⟨l, rfl, h⟩
  | @cons prop d more ds hd _ ih =>
    obtain ⟨l', hl', hread⟩ := read_addProp h hd (hin prop List.mem_cons_self)
    obtain ⟨l'', hl'', hread'⟩ := ih (fun p hp => hin p (List.mem_cons_of_mem _ hp)) hread
    refine ⟨l'', ?_, ?_⟩
    · rw [List.foldlM_cons, hl']
      exact hl''
    · rw [List.append_assoc] at hread'
      exact hread'

theorem init_spec {ds : List PropDef} (hin : ∀ prop ∈ props, prop.columnFamily < props.length)
    (hds : List.Forall₂ Published props ds) :
    ∃ l, FragmentLayout.init ds = .ok l ∧ Read props.length props l := by
  unfold FragmentLayout.init
  rw [← hds.length_eq]
  exact read_foldlM hin hds (read_nil _)

end reading

/-! ### Agreement of the two layouts -/

/-- The null bit that `insert` writes: it numbers the values of a family as it meets them. -/
def insertBit (store : VertexLayout) (i family : Nat) : Nat :=
  (store.propColumnFamily.take i).count family

/-- What the store needs of a layout of properties of these types, and what makes the fragment
read what the store writes. -/
structure LayoutAgrees (maxItems : Nat) (dtypes : List PropertyDataType) (store : VertexLayout)
    (reader : FragmentLayout) : Prop where
  inRange : ∀ (i : Nat) (dtype : PropertyDataType), dtypes[i]? = some dtype →
    ∃ p col, placeOf store i = some p ∧ store.colFamilies[p.family]? = some col ∧
      p.offset + dtype.size ≤ col.vlen ∧ p.nullBit < col.columnNum
  apart : ∀ (i j : Nat) (dtype dtype' : PropertyDataType) (p q : Place) (col : ColumnFamily)
    (row row' : Nat), i ≠ j → dtypes[i]? = some dtype → dtypes[j]? = some dtype' →
      placeOf store i = some p → placeOf store j = some q → p.family = q.family →
      store.colFamilies[p.family]? = some col →
      ((col.settle maxItems).cell row p.offset + dtype.size ≤ (col.settle maxItems).cell row' q.offset ∨
        (col.settle maxItems).cell row' q.offset + dtype'.size ≤ (col.settle maxItems).cell row p.offset) ∧
      (col.settle maxItems).nullBit row p.nullBit ≠ (col.settle maxItems).nullBit row' q.nullBit
  inPage : ∀ (i : Nat) (dtype : PropertyDataType) (p : Place) (col : ColumnFamily) (row : Nat),
    dtypes[i]? = some dtype → placeOf store i = some p → store.colFamilies[p.family]? = some col →
      row < (col.settle maxItems).pageSize →
      (col.settle maxItems).nullBit row p.nullBit / 8 < (col.settle maxItems).bitmapSize ∧
      (col.settle maxItems).bitmapSize ≤ (col.settle maxItems).cell row p.offset ∧
      (col.settle maxItems).cell row p.offset + dtype.size ≤ (col.settle maxItems).contentSize
  same : ∀ (i : Nat) (dtype : PropertyDataType) (p : Place) (col : ColumnFamily),
    dtypes[i]? = some dtype → placeOf store i = some p → store.colFamilies[p.family]? = some col →
      reader.columnFamilyId[i]? = some p.family ∧
      reader.columnFamilyOffset[i]? = some (p.offset : Int) ∧
      reader.idInColumnFamily[i]? = some p.nullBit ∧
      insertBit store i p.family = p.nullBit ∧
      reader.numPerColumnFamily[p.family]? = some col.columnNum ∧
      reader.columnFamilyDataLength[p.family]? = some col.vlen

/-- The schema is read and published, and each fragment gets the layouts of the store from it. -/
def LayoutsAgree (maxItems : Nat) (m : GraphMapping) : Prop :=
  ∃ s defs, initGraphSchema m = .ok s ∧ s.schema.fillJson = .ok defs ∧
    ∀ label < m.vertexTypes.length, ∃ props layout ds reader, s.schema.props[label]? = some props ∧
      s.layouts[label]? = some layout ∧ defs[label]? = some ds ∧ FragmentLayout.init ds = .ok reader ∧
      LayoutAgrees maxItems (props.map SchemaProp.dtype) layout reader

section agreement
variable {n : Nat} {b : LabelBuild} {groups : List Nat}

theorem placeOf_of_placed (h : Placed n b) (cols : List ColumnFamily) {i : Nat} {prop : SchemaProp}
    (hprop : b.props[i]? = some prop) :
    placeOf { b.layout with colFamilies := cols } i = some ⟨prop.columnFamily,
      width ((itemsOf b.props).take i) prop.columnFamily,
      number ((itemsOf b.props).take i) prop.columnFamily⟩ := by
  unfold placeOf
  rw [h.rank i prop hprop, h.family, h.offset, List.getElem?_map, List.getElem?_map, hprop,
    ← h.start i prop hprop]
  rfl

theorem insertBit_eq (h : Placed n b) (cols : List ColumnFamily) (i family : Nat) :
    insertBit { b.layout with colFamilies := cols } i family =
      number ((itemsOf b.props).take i) family := by
  unfold insertBit number itemsOf
  dsimp only
  rw [h.family, ← List.map_take, ← List.map_take, List.count, List.countP_map, List.countP_map]
  apply List.countP_congr
  intro prop _
  show (prop.columnFamily == family) = true ↔ decide (prop.columnFamily = family) = true
  rw [beq_iff_eq, decide_eq_true_iff]

theorem number_pos_iff_mem (hgroups : b.props.map SchemaProp.columnFamily = groups) (f : Nat) :
    0 < number (itemsOf b.props) f ↔ f ∈ groups := by
  rw [number_pos_iff, ← hgroups, List.mem_map]
  constructor
  · rintro ⟨item, hitem, hf⟩
    obtain ⟨prop, hprop, rfl⟩ := List.mem_map.mp hitem
    exact ⟨prop, hprop, hf⟩
  · rintro ⟨prop, hprop, hf⟩
    exact ⟨prop.item, List.mem_map_of_mem hprop, hf⟩

theorem compact_of_dense (h : Placed n b) (hgroups : b.props.map SchemaProp.columnFamily = groups)
    (hdense : Dense groups) {f : Nat} (hf : f ∈ groups) :
    (compact b.families)[f]? =
      some { vlen := width (itemsOf b.props) f, columnNum := number (itemsOf b.props) f } := by
  have hlt : f < n := by
    rw [← hgroups] at hf
    obtain ⟨prop, hprop, rfl⟩ := List.mem_map.mp hf
    exact h.inside prop hprop
  have hused : decide (0 < number (itemsOf b.props) f) = true :=
    decide_eq_true ((number_pos_iff_mem hgroups f).mpr hf)
  have hget := h.families f hlt
  rw [hused] at hget
  unfold compact
  rw [List.getElem?_map, filter_of_marked_first ?_ hget rfl]
  · rfl
  · intro i j x y hij hx hy hmarked
    have hi : i < n := by
      rw [← h.length]
      exact (List.getElem?_eq_some_iff.mp hx).1
    have hj : j < n := by
      rw [← h.length]
      exact (List.getElem?_eq_some_iff.mp hy).1
    rw [h.families i hi] at hx
    rw [h.families j hj] at hy
    rw [← Option.some.inj hy] at hmarked
    rw [← Option.some.inj hx]
    have hmem := (number_pos_iff_mem hgroups j).mp (of_decide_eq_true hmarked)
    exact decide_eq_true ((number_pos_iff_mem hgroups i).mpr (hdense j hmem i hij))

theorem dense_of_found (h : Placed n b) (hgroups : b.props.map SchemaProp.columnFamily = groups)
    (hfound : ∀ f ∈ groups, f < (compact b.families).length) : Dense groups := by
  have hcount : (compact b.families).length = (b.families.map Prod.snd).count true := by
    unfold compact
    rw [List.length_map, ← List.countP_eq_length_filter, List.count, List.countP_map]
    apply List.countP_congr
    intro pair _
    simp
  have hflag : ∀ f < n, (b.families.map Prod.snd)[f]? = some (decide (0 < number (itemsOf b.props) f)) := by
    intro f hf
    rw [List.getElem?_map, h.families f hf]
    rfl
  have hup : ∀ f, (b.families.map Prod.snd)[f]? = some true ↔ f ∈ groups := by
    intro f
    rcases Nat.lt_or_ge f n with hlt | hge
    · rw [hflag f hlt, ← number_pos_iff_mem hgroups f]
      simp
    · constructor
      · intro hsome
        have hbound := (List.getElem?_eq_some_iff.mp hsome).1
        rw [List.length_map, h.length] at hbound
        omega
      · intro hmem
        rw [← hgroups] at hmem
        obtain ⟨prop, hprop, rfl⟩ := List.mem_map.mp hmem
        have hin := h.inside prop hprop
        omega
  intro g hg f hfg
  have hlt := hfound g hg
  rw [hcount] at hlt
  refine (hup f).mp (up_below_count (fun i hi => ?_) (Nat.lt_trans hfg hlt))
  rw [← hcount]
  exact hfound i ((hup i).mp hi)

theorem agrees_of_dense (maxItems : Nat) (h : Placed n b)
    (hgroups : b.props.map SchemaProp.columnFamily = groups) (hdense : Dense groups)
    {l : FragmentLayout} (hl : Read n b.props l) :
    LayoutAgrees maxItems (b.props.map SchemaProp.dtype)
      { b.layout with colFamilies := compact b.families } l := by
  have hplaced : ∀ {i : Nat} {dtype : PropertyDataType},
      (b.props.map SchemaProp.dtype)[i]? = some dtype → ∃ prop, b.props[i]? = some prop ∧
        (itemsOf b.props)[i]? = some (prop.columnFamily, dtype.size) ∧
        placeOf { b.layout with colFamilies := compact b.families } i = some ⟨prop.columnFamily,
          width ((itemsOf b.props).take i) prop.columnFamily,
          number ((itemsOf b.props).take i) prop.columnFamily⟩ ∧
        (compact b.families)[prop.columnFamily]? = some { vlen := width (itemsOf b.props) prop.columnFamily
                                                          columnNum :=
                                                            number (itemsOf b.props) prop.columnFamily } := by
    intro i dtype hdtype
    rw [List.getElem?_map] at hdtype
    obtain ⟨prop, hprop, rfl⟩ := Option.map_eq_some_iff.mp hdtype
    have hmem : prop.columnFamily ∈ groups := by
      rw [← hgroups]
      exact List.mem_map_of_mem (List.mem_of_getElem? hprop)
    refine ⟨prop, hprop, ?_, placeOf_of_placed h _ hprop, compact_of_dense h hgroups hdense hmem⟩
    unfold itemsOf
    rw [List.getElem?_map, hprop]
    rfl
  constructor
  · intro i dtype hdtype
    obtain ⟨prop, -, hitem, hplace, hcol⟩ := hplaced hdtype
    exact ⟨_, _, hplace, hcol, end_le_width hitem, rank_lt_number hitem⟩
  · intro i j dtype dtype' p q col row row' hij hdtype hdtype' hp hq hsame hcol
    obtain ⟨prop, -, hitem, hplace, hcol'⟩ := hplaced hdtype
    obtain ⟨prop', -, hitem', hplace', -⟩ := hplaced hdtype'
    rw [hplace] at hp
    rw [hplace'] at hq
    rw [← Option.some.inj hp] at hsame hcol ⊢
    rw [← Option.some.inj hq] at hsame ⊢
    dsimp only at hsame hcol ⊢
    rw [hcol'] at hcol
    rw [← Option.some.inj hcol]
    rw [← hsame] at hitem' ⊢
    have hbit : ∀ {k dtype}, (itemsOf b.props)[k]? = some (prop.columnFamily, dtype) →
        number ((itemsOf b.props).take k) prop.columnFamily < number (itemsOf b.props) prop.columnFamily :=
      fun hk => rank_lt_number hk
    constructor
    · rcases Nat.lt_trichotomy row row' with hlt | rfl | hgt
      · exact Or.inl (ColumnFamily.row_end_le hlt (end_le_width hitem))
      · unfold ColumnFamily.cell
        rcases Nat.lt_or_gt_of_ne hij with hlt | hgt
        · have hle := end_le_start hitem hlt
          dsimp only at hle
          omega
        · have hle := end_le_start hitem' hgt
          dsimp only at hle
          omega
      · exact Or.inr (ColumnFamily.row_end_le hgt (end_le_width hitem'))
    · intro heq
      obtain ⟨-, hrank⟩ := ColumnFamily.nullBit_inj (hbit hitem) (hbit hitem') heq
      rcases Nat.lt_or_gt_of_ne hij with hlt | hgt
      · have hless := rank_lt hitem hlt
        dsimp only at hless
        omega
      · have hless := rank_lt hitem' hgt
        dsimp only at hless
        omega
  · intro i dtype p col row hdtype hp hcol hrow
    obtain ⟨prop, -, hitem, hplace, hcol'⟩ := hplaced hdtype
    rw [hplace] at hp
    rw [← Option.some.inj hp] at hcol ⊢
    dsimp only at hcol ⊢
    rw [hcol'] at hcol
    rw [← Option.some.inj hcol] at hrow ⊢
    refine ⟨ColumnFamily.nullBit_byte_lt hrow (rank_lt_number hitem), ?_,
      ColumnFamily.cell_end_le hrow (end_le_width hitem)⟩
    unfold ColumnFamily.cell
    omega
  · intro i dtype p col hdtype hp hcol
    obtain ⟨prop, hprop, -, hplace, hcol'⟩ := hplaced hdtype
    rw [hplace] at hp
    rw [← Option.some.inj hp] at hcol ⊢
    dsimp only at hcol ⊢
    rw [hcol'] at hcol
    rw [← Option.some.inj hcol]
    have hin := h.inside prop (List.mem_of_getElem? hprop)
    refine ⟨?_, ?_, hl.rank i prop hprop, insertBit_eq h _ i _, hl.num _ hin, hl.length _ hin⟩
    · rw [hl.family, List.getElem?_map, hprop]
      rfl
    · rw [hl.offset, List.getElem?_map, hprop, ← h.start i prop hprop]
      rfl

end agreement

theorem agrees_of_published {m : GraphMapping} {s : SchemaBuild} {defs : List (List PropDef)}
    (maxItems : Nat) (hs : initGraphSchema m = .ok s) (hdefs : s.schema.fillJson = .ok defs) {label : Nat}
    {v : LabelMapping} (hv : m.vertexTypes[label]? = some v) (hdense : Dense (familiesOf v.propInfo)) :
    ∃ props layout ds reader, s.schema.props[label]? = some props ∧ s.layouts[label]? = some layout ∧
      defs[label]? = some ds ∧ FragmentLayout.init ds = .ok reader ∧
      LayoutAgrees maxItems (props.map SchemaProp.dtype) layout reader := by
  obtain ⟨⟨hlabelled, hlaid⟩, hoffset⟩ := (initGraphSchema_spec m).of_ok hs
  have hnodup := nodup_of_fillJson hlabelled hdefs
  obtain ⟨defs', hdefs', -, hpublished⟩ := fillJson_spec hlabelled hnodup.1 hnodup.2
  rw [hdefs] at hdefs'
  rw [← Except.ok.inj hdefs'] at hpublished
  have hlt := (List.getElem?_eq_some_iff.mp hv).1
  obtain ⟨b, hplaced, hfamilies, hlayout, hprops⟩ := hlaid.laid label v hv
  obtain ⟨ds, hds, hin⟩ := hpublished label _ hprops
  have hall : List.Forall₂ Published b.props ds :=
    hin.imp fun _ _ hprop => hprop.vertex (by rw [hoffset]; exact hlt)
  have hlength : b.props.length = v.propInfo.length := by
    have hlens := congrArg List.length hfamilies
    rw [List.length_map, familiesOf_length] at hlens
    exact hlens
  obtain ⟨reader, hreader, hread⟩ := init_spec (fun prop hprop => by
    rw [hlength]
    exact hplaced.inside prop hprop) hall
  rw [hlength] at hread
  exact ⟨b.props, _, ds, reader, hprops, hlayout, hds, hreader,
    agrees_of_dense maxItems hplaced hfamilies hdense hread⟩

/-- For columns of types that the store has: the layouts agree if and only if no family below a
used one is unused, no label has two properties of one name, and no two labels have one name. -/
theorem layouts_agree_iff (maxItems : Nat) (m : GraphMapping)
    (htyped : ∀ label ∈ m.vertexTypes ++ m.edgeTypes, label.Typed) :
    LayoutsAgree maxItems m ↔
      (∀ v ∈ m.vertexTypes, Dense (familiesOf v.propInfo)) ∧ m.DistinctNames ∧ m.DistinctLabels := by
  constructor
  · rintro ⟨s, defs, hs, hdefs, hagree⟩
    obtain ⟨⟨hlabelled, hlaid⟩, -⟩ := (initGraphSchema_spec m).of_ok hs
    have hnodup := nodup_of_fillJson hlabelled hdefs
    refine ⟨?_, (nodup_allKeys _).mp hnodup.1, hnodup.2⟩
    · intro v hv
      obtain ⟨label, hlt, hlabel⟩ := List.mem_iff_getElem.mp hv
      obtain ⟨b, hplaced, hfamilies, hlayout, hprops⟩ :=
        hlaid.laid label v (by rw [List.getElem?_eq_getElem hlt, hlabel])
      obtain ⟨props, layout, ds, reader, hprops', hlayout', -, -, hagrees⟩ := hagree label hlt
      rw [hprops] at hprops'
      rw [hlayout] at hlayout'
      rw [← Option.some.inj hprops', ← Option.some.inj hlayout'] at hagrees
      refine dense_of_found hplaced hfamilies fun f hf => ?_
      rw [← hfamilies] at hf
      obtain ⟨prop, hprop, rfl⟩ := List.mem_map.mp hf
      obtain ⟨i, hi⟩ := List.mem_iff_getElem?.mp hprop
      obtain ⟨p, col, hp, hcol, -, -⟩ := hagrees.inRange i prop.dtype (by rw [List.getElem?_map, hi]; rfl)
      rw [placeOf_of_placed hplaced _ hi] at hp
      rw [← Option.some.inj hp] at hcol
      exact (List.getElem?_eq_some_iff.mp hcol).1
  · rintro ⟨hdense, hnames, hlabels⟩
    have haccepted : m.Accepted := by
      constructor
      · intro v hv
        refine ⟨htyped v (List.mem_append_left _ hv), fun _ f hf => ?_⟩
        rw [← familiesOf_length v.propInfo]
        exact (hdense v hv).lt_length hf
      · intro e he
        exact ⟨htyped e (List.mem_append_right _ he), fun hfalse => by cases hfalse⟩
    obtain ⟨s, hs, ⟨hlabelled, -⟩, -⟩ :=
      ((initGraphSchema_spec m).mono (fun _ h => h) fun _ hnot => hnot haccepted).exists_ok
    obtain ⟨defs, hdefs, -⟩ := fillJson_spec hlabelled ((nodup_allKeys _).mpr hnames) hlabels
    refine ⟨s, defs, hs, hdefs, fun label hlt => ?_⟩
    exact agrees_of_published maxItems hs hdefs (List.getElem?_eq_getElem hlt)
      (hdense _ (List.getElem_mem hlt))

def laterFamily : GraphMapping :=
  { vertexTypes := [{
      name := "person"
      tableSchema := [("a", "int"), ("b", "bigint")]
      propInfo := [{ property := "A", dataField := "a", columnFamily := some 1 },
        { property := "B", dataField := "b", columnFamily := some 1 }] }]
    edgeTypes := [] }

theorem layouts_agree_iff_firstFamily : LayoutsAgree 4096 { vertexTypes := [{
    name := "person"
    tableSchema := [("a", "int"), ("b", "bigint")]
    propInfo := [{ property := "A", dataField := "a", columnFamily := some 0 },
      { property := "B", dataField := "b", columnFamily := some 0 }] }], edgeTypes := [] } :=
  (layouts_agree_iff 4096 _ (by decide +kernel)).mpr ⟨by decide +kernel, by decide +kernel, by decide⟩

/-- The store has one family for them, with the number 0, and looks for it under the number 1. -/
theorem laterFamily_not_agrees :
    (∀ label ∈ laterFamily.vertexTypes ++ laterFamily.edgeTypes, label.Typed) ∧
      ¬ LayoutsAgree 4096 laterFamily := by
  refine ⟨by decide +kernel, ?_⟩
  rintro ⟨s, defs, hs, -, hagree⟩
  obtain ⟨props, layout, ds, reader, hprops, hlayout, -, -, hagrees⟩ := hagree 0 (by decide)
  have hlayouts : (initGraphSchema laterFamily).map (fun s => (s.schema.props.map (·.length), s.layouts)) =
      .ok ([2], [{ propColumnFamily := [1, 1], propOffset := [0, 4], propId := [0, 1]
                   colFamilies := [{ vlen := 12, columnNum := 2 }] }]) := by decide +kernel
  rw [hs] at hlayouts
  obtain ⟨hlens, hlayouts⟩ := Prod.mk.inj (Except.ok.inj hlayouts)
  rw [hlayouts] at hlayout
  rw [← Option.some.inj hlayout] at hagrees
  have hsome : props.length = 2 := by
    have hget := congrArg (fun lens : List Nat => lens[0]?) hlens
    rw [List.getElem?_map, hprops] at hget
    exact Option.some.inj hget
  have hlt : 0 < (props.map SchemaProp.dtype).length := by
    rw [List.length_map, hsome]
    decide
  obtain ⟨p, col, hp, hcol, -⟩ := hagrees.inRange 0 _ (List.getElem?_eq_getElem hlt)
  rw [← Option.some.inj hp] at hcol
  cases hcol

end Gart.Fragment
