import Gart.Lib.GroupLayout
import Gart.Lib.Outcome
import Mathlib.Data.List.GetD
import Mathlib.Data.List.Induction
import Mathlib.Data.List.Nodup
import Mathlib.Data.List.Perm.Subperm

/-!
# The graph schema

`init_graph_schema` reads the properties of the labels from the mapping, lays the
properties of a vertex label out in column families and leaves out the families
without a property. `fill_json` publishes the families and offsets.
-/

namespace Gart.Store
open Gart.GroupLayout Gart.Outcome

/-- `PropertyDataType` (`property.h:59-79`) -/
inductive PropertyDataType
  | char
  | int
  | long
  | float
  | double
  | string
  | date
  | datetime
  | time
  | timestamp
  deriving DecidableEq

namespace PropertyDataType

/-- The bytes of a value; of a string its key in the string buffer. -/
def size : PropertyDataType → Nat
  | char => 1
  | int | float | date => 4
  | long | double | string | datetime | time => 8
  | timestamp => 22

/-- `type_str` -/
def typeStr : PropertyDataType → String
  | char => "CHAR"
  | int => "INT"
  | long => "LONG"
  | float => "FLOAT"
  | double => "DOUBLE"
  | string => "STRING"
  | date => "DATE"
  | datetime => "DATETIME"
  | time => "TIME"
  | timestamp => "TIMESTAMP"

def ofColumn (str : String) : Option PropertyDataType :=
  if str = "int" ∨ str = "integer" then some int
  else if str = "bigint" then some long
  else if str = "float" then some float
  else if str = "double" ∨ str = "double precision" then some double
  else if "varchar".toList.isPrefixOf str.toList ∨ str = "character varying" ∨ str = "text" then
    some string
  else if str = "timestamp" ∨ "timestamp(".toList.isPrefixOf str.toList ∨
      str = "timestamp with time zone" ∨ str = "timestamp without time zone" then
    some timestamp
  else if str = "date" then some date
  else if str = "time" ∨ "time(".toList.isPrefixOf str.toList ∨ str = "time without time zone" ∨
      str = "time with time zone" then
    some time
  else if str = "datetime" ∨ "datetime(".toList.isPrefixOf str.toList then some datetime
  else none

end PropertyDataType

/-- An element of `mappings`, or of `dataFieldMappings` for an edge label. -/
structure PropertyMapping where
  property : String
  /-- the name of its `dataField` -/
  dataField : String
  columnFamily : Option Nat := none
  deriving DecidableEq

/-- A label with the columns of its table and their types. The end points of an edge label are left out. -/
structure LabelMapping where
  /-- `type_name` of a vertex label, `type_pair.edge` of an edge label -/
  name : String
  tableSchema : List (String × String)
  propInfo : List PropertyMapping
  deriving DecidableEq

structure GraphMapping where
  vertexTypes : List LabelMapping
  edgeTypes : List LabelMapping
  deriving DecidableEq

inductive SchemaFault
  | typeError
  /-- a vector is accessed behind its end -/
  | outOfBounds
  deriving DecidableEq

/-- `Property::ColumnFamily` (`property.h:84-89`) -/
structure ColumnFamily where
  vlen : Nat := 0
  updatable : Bool := true
  pageSize : Nat := 0
  columnNum : Nat := 0
  deriving DecidableEq

/-- What the store keeps for the properties of a vertex label. -/
structure VertexLayout where
  propColumnFamily : List Nat := []
  propOffset : List Nat := []
  propId : List Nat := []
  /-- `col_families` of the property store -/
  colFamilies : List ColumnFamily := []
  deriving DecidableEq

/-- A property as `SchemaImpl` has it, with the columns only vertices have. -/
structure SchemaProp where
  dtype : PropertyDataType
  columnFamily : Nat := 0
  columnFamilyOffset : Nat := 0
  deriving DecidableEq

/-- `SchemaImpl` (`graph_store.h:50-73`); the properties of a label are listed by their index. -/
structure SchemaImpl where
  labelIdMap : List (String × Nat) := []
  propertyIdMap : List ((String × Nat) × Nat) := []
  label2PropOffset : List (Option Nat) := []
  props : List (List SchemaProp) := []
  elabelOffset : Nat := 0
  deriving DecidableEq

/-- Assignment to an element of a `std::map` or a `std::unordered_map`. -/
def assign {κ : Type} [DecidableEq κ] (map : List (κ × Nat)) (key : κ) (value : Nat) : List (κ × Nat) :=
  if map.any (fun pair => pair.1 = key) then
    map.map fun pair => if pair.1 = key then (key, value) else pair
  else map ++ [(key, value)]

/-- `toLowerCase` (`bench_runner.cc:65-71`) -/
def toLowerCase (input : String) : String := String.ofList (input.toList.map Char.toLower)

def columnType (tableSchema : List (String × String)) (column : String) : Option PropertyDataType :=
  (tableSchema.find? fun row => row.1 = column).bind fun row => PropertyDataType.ofColumn row.2

/-! ### One label -/

/-- What the loop over the properties of a label builds. -/
structure LabelBuild where
  /-- `column_family_info`, with `column_family_info_is_valid` -/
  families : List (ColumnFamily × Bool)
  layout : VertexLayout := {}
  props : List SchemaProp := []
  propertyIdMap : List ((String × Nat) × Nat)
  propOffset : Nat
  deriving DecidableEq

/-- A property of a vertex label goes behind those that its family already has. -/
def LabelBuild.place (b : LabelBuild) (family : Nat) (dtype : PropertyDataType) : LabelBuild :=
  let info := ((b.families[family]?).getD ({}, false)).1
  { b with
    families := b.families.set family
      ({ info with vlen := info.vlen + dtype.size, columnNum := info.columnNum + 1 }, true)
    layout := { b.layout with
      propColumnFamily := b.layout.propColumnFamily ++ [family]
      propOffset := b.layout.propOffset ++ [info.vlen]
      propId := b.layout.propId ++ [info.columnNum] }
    props := b.props ++ [⟨dtype, family, info.vlen⟩] }

def familyOf (prop : PropertyMapping) (propIdx : Nat) : Nat := prop.columnFamily.getD propIdx

def LabelBuild.define (isVertex : Bool) (label : Nat) (tableSchema : List (String × String))
    (b : LabelBuild) (prop : PropertyMapping) : Except SchemaFault LabelBuild :=
  let family := familyOf prop b.props.length
  if isVertex ∧ b.families.length ≤ family then .error .outOfBounds
  else
    match columnType tableSchema (toLowerCase prop.dataField) with
    | none => .error .typeError
    | some dtype =>
      let b := if isVertex then b.place family dtype
        else { b with props := b.props ++ [{ dtype := dtype }] }
      .ok { b with
        propertyIdMap := assign b.propertyIdMap (prop.property, label) b.propOffset
        propOffset := b.propOffset + 1 }

/-! ### All labels -/

structure SchemaBuild where
  schema : SchemaImpl := {}
  layouts : List VertexLayout := []
  propOffset : Nat := 0
  deriving DecidableEq

/-- The families that have a property, without the places of the others. -/
def compact (families : List (ColumnFamily × Bool)) : List ColumnFamily :=
  (families.filter Prod.snd).map Prod.fst

/-- The number of a label in `label_id_map`, which the source fills in loops of its own before it reads the
properties, and then its properties. -/
def SchemaBuild.defineLabel (isVertex : Bool) (s : SchemaBuild) (m : LabelMapping) :
    Except SchemaFault SchemaBuild := do
  let label := s.schema.props.length
  let b ← m.propInfo.foldlM (LabelBuild.define isVertex label m.tableSchema)
    { families := List.replicate m.propInfo.length ({}, false)
      propertyIdMap := s.schema.propertyIdMap, propOffset := s.propOffset }
  return {
    schema := { s.schema with
      labelIdMap := assign s.schema.labelIdMap m.name label
      propertyIdMap := b.propertyIdMap
      label2PropOffset := s.schema.label2PropOffset ++
        [if m.propInfo.length ≠ 0 then some s.propOffset else none]
      props := s.schema.props ++ [b.props] }
    layouts := if isVertex then s.layouts ++ [{ b.layout with colFamilies := compact b.families }]
      else s.layouts
    propOffset := b.propOffset }

/-- `init_graph_schema` from the parsed mapping on (`bench_runner.cc:77-518`) -/
def initGraphSchema (m : GraphMapping) : Except SchemaFault SchemaBuild := do
  let s ← m.vertexTypes.foldlM (SchemaBuild.defineLabel true)
    { schema := { elabelOffset := m.vertexTypes.length } }
  m.edgeTypes.foldlM (SchemaBuild.defineLabel false) s

/-! ### Publishing the schema -/

/-- `PropDef`; the family and the offset of an edge property are -1. -/
structure PropDef where
  id : Nat
  name : String
  dtype : PropertyDataType
  columnFamilyId : Int
  columnFamilyOffset : Int
  deriving DecidableEq

namespace SchemaImpl

/-- `pid_end`: the first property of the next label that has one. -/
def pidEnd (schema : SchemaImpl) (label : Nat) : Nat :=
  ((schema.label2PropOffset.drop (label + 1)).findSome? id).getD schema.propertyIdMap.length

/-- The element of `props` with the number `pid`, and what `fill_json` adds for a label. -/
def propDef (schema : SchemaImpl) (label pidBegin pid : Nat) : Except SchemaFault PropDef :=
  match ((schema.props[label]?).getD [])[pid - pidBegin]? with
  | none => .error .outOfBounds
  | some prop =>
    if schema.propertyIdMap.length ≤ pid then .error .outOfBounds
    else
      .ok {
        id := pid
        name := ((schema.propertyIdMap.find? fun pair => pair.2 = pid).map fun pair => pair.1.1).getD ""
        dtype := prop.dtype
        columnFamilyId := if label < schema.elabelOffset then prop.columnFamily else -1
        columnFamilyOffset := if label < schema.elabelOffset then prop.columnFamilyOffset else -1 }

/-- The `propertyDefList` of a label. -/
def propertyDefList (schema : SchemaImpl) (label : Nat) : Except SchemaFault (List PropDef) :=
  match (schema.label2PropOffset[label]?).bind id with
  | none => .ok []
  | some pidBegin =>
    (List.range (schema.pidEnd label - pidBegin)).mapM fun k =>
      schema.propDef label pidBegin (pidBegin + k)

/-- `fill_json` (`graph_store.cc:363-436`): the property lists of all labels. `props` has an element for each entry
of `property_id_map`, and `types` one for each entry of `label_id_map`, at the place of its number. -/
def fillJson (schema : SchemaImpl) : Except SchemaFault (List (List PropDef)) :=
  if schema.propertyIdMap.any fun pair => decide (schema.propertyIdMap.length ≤ pair.2) then
    .error .outOfBounds
  else if schema.labelIdMap.any fun pair => decide (schema.labelIdMap.length ≤ pair.2) then
    .error .outOfBounds
  else
    (List.range schema.labelIdMap.length).mapM fun label =>
      if schema.labelIdMap.any fun pair => decide (pair.2 = label) then schema.propertyDefList label
      else .ok []

end SchemaImpl

/-! ### The layout of a label -/

def SchemaProp.item (prop : SchemaProp) : Item := (prop.columnFamily, prop.dtype.size)

def itemsOf (props : List SchemaProp) : List Item := props.map SchemaProp.item

/-- The properties of a vertex label lie one behind the other in their families. -/
structure Placed (numFamilies : Nat) (b : LabelBuild) : Prop where
  length : b.families.length = numFamilies
  families : ∀ f < numFamilies, b.families[f]? =
    some ({ vlen := width (itemsOf b.props) f, columnNum := number (itemsOf b.props) f },
      decide (0 < number (itemsOf b.props) f))
  family : b.layout.propColumnFamily = b.props.map SchemaProp.columnFamily
  offset : b.layout.propOffset = b.props.map SchemaProp.columnFamilyOffset
  rankLength : b.layout.propId.length = b.props.length
  rank : ∀ (i : Nat) (prop : SchemaProp), b.props[i]? = some prop →
    b.layout.propId[i]? = some (number ((itemsOf b.props).take i) prop.columnFamily)
  start : ∀ (i : Nat) (prop : SchemaProp), b.props[i]? = some prop →
    prop.columnFamilyOffset = width ((itemsOf b.props).take i) prop.columnFamily
  inside : ∀ prop ∈ b.props, prop.columnFamily < numFamilies

section placed
variable {numFamilies : Nat} {b : LabelBuild}

theorem placed_replicate (n : Nat) (ids : List ((String × Nat) × Nat)) (propOffset : Nat) :
    Placed n { families := List.replicate n ({}, false), propertyIdMap := ids, propOffset := propOffset } := by
  constructor
  · exact List.length_replicate
  · intro f hf
    show (List.replicate n _)[f]? = _
    rw [List.getElem?_replicate, if_pos hf]
    rfl
  · rfl
  · rfl
  · rfl
  · intro i prop hprop
    cases hprop
  · intro i prop hprop
    cases hprop
  · intro prop hprop
    cases hprop

theorem getElem?_concat_cases {α : Type} {xs : List α} {x y : α} {i : Nat}
    (h : (xs ++ [x])[i]? = some y) : xs[i]? = some y ∨ i = xs.length ∧ y = x := by
  rcases Nat.lt_or_ge i xs.length with hlt | hge
  · rw [List.getElem?_append_left hlt] at h
    exact Or.inl h
  · rw [List.getElem?_append_right hge, List.getElem?_singleton] at h
    split at h
    · exact Or.inr ⟨by omega, (Option.some.inj h).symm⟩
    · cases h

theorem itemsOf_append (props more : List SchemaProp) :
    itemsOf (props ++ more) = itemsOf props ++ itemsOf more := List.map_append

theorem take_itemsOf_append {props more : List SchemaProp} {i : Nat} (h : i ≤ props.length) :
    (itemsOf (props ++ more)).take i = (itemsOf props).take i := by
  rw [itemsOf_append, List.take_append_of_le_length]
  unfold itemsOf
  rw [List.length_map]
  exact h

theorem placed_place (h : Placed numFamilies b) {family : Nat} (hfamily : family < numFamilies)
    (dtype : PropertyDataType) : Placed numFamilies (b.place family dtype) := by
  have hinfo := h.families family hfamily
  have hplace : b.place family dtype = { b with
      families := b.families.set family
        ({ vlen := width (itemsOf b.props) family + dtype.size
           columnNum := number (itemsOf b.props) family + 1 }, true)
      layout := { b.layout with
        propColumnFamily := b.layout.propColumnFamily ++ [family]
        propOffset := b.layout.propOffset ++ [width (itemsOf b.props) family]
        propId := b.layout.propId ++ [number (itemsOf b.props) family] }
      props := b.props ++ [⟨dtype, family, width (itemsOf b.props) family⟩] } := by
    unfold LabelBuild.place
    rw [hinfo]
    rfl
  have hend : (itemsOf b.props).take b.props.length = itemsOf b.props := by
    have hlength : b.props.length = (itemsOf b.props).length := (List.length_map _).symm
    rw [hlength, List.take_length]
  rw [hplace]
  constructor
  · rw [List.length_set]
    exact h.length
  · intro f hf
    dsimp only
    rw [itemsOf_append, width_append, number_append]
    by_cases hsame : family = f
    · subst hsame
      rw [List.getElem?_set_self (by rw [h.length]; exact hf)]
      unfold itemsOf SchemaProp.item
      rw [List.map_singleton, width_singleton, number_singleton, if_pos rfl, if_pos rfl]
      simp
    · rw [List.getElem?_set_ne hsame, h.families f hf]
      unfold itemsOf SchemaProp.item
      rw [List.map_singleton, width_singleton, number_singleton, if_neg hsame, if_neg hsame]
      simp
  · simp only [h.family, List.map_append, List.map_singleton]
  · simp only [h.offset, List.map_append, List.map_singleton]
  · simp only [h.rankLength, List.length_append, List.length_singleton]
  · intro i prop hprop
    dsimp only at hprop ⊢
    rcases getElem?_concat_cases hprop with hold | ⟨rfl, rfl⟩
    · have hlt := (List.getElem?_eq_some_iff.mp hold).1
      rw [take_itemsOf_append (Nat.le_of_lt hlt),
        List.getElem?_append_left (by rw [h.rankLength]; exact hlt)]
      exact h.rank i prop hold
    · rw [take_itemsOf_append (Nat.le_refl _), hend,
        List.getElem?_append_right (Nat.le_of_eq h.rankLength), h.rankLength,
        Nat.sub_self]
      rfl
  · intro i prop hprop
    dsimp only at hprop ⊢
    rcases getElem?_concat_cases hprop with hold | ⟨rfl, rfl⟩
    · have hlt := (List.getElem?_eq_some_iff.mp hold).1
      rw [take_itemsOf_append (Nat.le_of_lt hlt)]
      exact h.start i prop hold
    · rw [take_itemsOf_append (Nat.le_refl _), hend]
  · intro prop hprop
    rcases List.mem_append.mp hprop with hold | hnew
    · exact h.inside prop hold
    · rw [List.mem_singleton.mp hnew]
      exact hfamily

end placed

/-! ### Numbering the properties and the labels -/

/-- The numbers given to the keys in their order, of which one given twice has the later. -/
structure Numbered {κ : Type} (keys : List κ) (map : List (κ × Nat)) (next : Nat) : Prop where
  next_eq : next = keys.length
  nodup : (map.map Prod.fst).Nodup
  mem : ∀ key, key ∈ map.map Prod.fst ↔ key ∈ keys
  lt : ∀ pair ∈ map, pair.2 < next
  last : 0 < next → ∃ pair ∈ map, pair.2 + 1 = next
  every : keys.Nodup → ∀ n < next, ∃ pair ∈ map, pair.2 = n

theorem numbered_nil {κ : Type} : @Numbered κ [] [] 0 where
  next_eq := rfl
  nodup := List.nodup_nil
  mem _ := Iff.rfl
  lt _ h := absurd h List.not_mem_nil
  last h := absurd h (Nat.lt_irrefl 0)
  every _ _ h := absurd h (Nat.not_lt_zero _)

section numbered
variable {κ : Type} [DecidableEq κ] {keys : List κ} {map : List (κ × Nat)} {next : Nat}

theorem keys_assign_of_mem {key : κ} (value : Nat) :
    ((map.map fun pair => if pair.1 = key then (key, value) else pair).map Prod.fst) =
      map.map Prod.fst := by
  rw [List.map_map]
  apply List.map_congr_left
  intro pair _
  show (if pair.1 = key then (key, value) else pair).1 = pair.1
  split
  · rename_i heq
    exact heq.symm
  · rfl

theorem Numbered.assign (h : Numbered keys map next) (key : κ) :
    Numbered (keys ++ [key]) (assign map key next) (next + 1) := by
  unfold Store.assign
  by_cases hmem : map.any (fun pair => pair.1 = key) = true
  · obtain ⟨pair, hpair, hkey⟩ := List.any_eq_true.mp hmem
    have hkey := of_decide_eq_true hkey
    rw [if_pos hmem]
    constructor
    · rw [List.length_append, h.next_eq]
      rfl
    · rw [keys_assign_of_mem]
      exact h.nodup
    · intro other
      rw [keys_assign_of_mem, h.mem, List.mem_append, List.mem_singleton]
      constructor
      · exact Or.inl
      · rintro (hold | rfl)
        · exact hold
        · rw [← h.mem, ← hkey]
          exact List.mem_map_of_mem hpair
    · intro other hother
      obtain ⟨old, hold, rfl⟩ := List.mem_map.mp hother
      split
      · exact Nat.lt_succ_self _
      · exact Nat.lt_succ_of_lt (h.lt old hold)
    · intro _
      refine ⟨(key, next), List.mem_map.mpr ⟨pair, hpair, if_pos hkey⟩, rfl⟩
    · intro hnodup
      have hin : key ∈ keys := by
        rw [← h.mem, ← hkey]
        exact List.mem_map_of_mem hpair
      exact absurd rfl ((List.nodup_append.mp hnodup).2.2 key hin key List.mem_cons_self)
  · have hnot : key ∉ map.map Prod.fst := by
      intro hin
      obtain ⟨pair, hpair, hkey⟩ := List.mem_map.mp hin
      exact hmem (List.any_eq_true.mpr ⟨pair, hpair, decide_eq_true hkey⟩)
    rw [if_neg hmem]
    constructor
    · rw [List.length_append, h.next_eq]
      rfl
    · rw [List.map_append]
      refine List.nodup_append.mpr ⟨h.nodup, List.pairwise_singleton _ _, ?_⟩
      intro other hother other' hother' heq
      rw [List.map_singleton, List.mem_singleton] at hother'
      rw [heq, hother'] at hother
      exact hnot hother
    · intro other
      rw [List.map_append, List.mem_append, List.mem_append, h.mem]
      rfl
    · intro other hother
      rcases List.mem_append.mp hother with hold | hnew
      · exact Nat.lt_succ_of_lt (h.lt other hold)
      · rw [List.mem_singleton.mp hnew]
        exact Nat.lt_succ_self _
    · intro _
      exact ⟨(key, next), List.mem_append_right _ List.mem_cons_self, rfl⟩
    · intro hnodup n hn
      rcases Nat.lt_succ_iff_lt_or_eq.mp hn with hlt | rfl
      · obtain ⟨pair, hpair, heq⟩ := h.every (List.nodup_append.mp hnodup).1 n hlt
        exact ⟨pair, List.mem_append_left _ hpair, heq⟩
      · exact ⟨(key, n), List.mem_append_right _ List.mem_cons_self, rfl⟩

omit [DecidableEq κ] in
theorem Numbered.length_eq_iff (h : Numbered keys map next) : map.length = next ↔ keys.Nodup := by
  have hlength : map.length = (map.map Prod.fst).length := (List.length_map _).symm
  have hperm : keys.Nodup → (map.map Prod.fst).Perm keys := fun hkeys =>
    (List.perm_ext_iff_of_nodup h.nodup hkeys).mpr h.mem
  constructor
  · intro heq
    have hsub : map.map Prod.fst ⊆ keys := fun key hkey => (h.mem key).mp hkey
    have hsubperm := List.subperm_of_subset h.nodup hsub
    have hp := hsubperm.perm_of_length_le (Nat.le_of_eq (by rw [← hlength, heq, h.next_eq]))
    exact hp.nodup_iff.mp h.nodup
  · intro hkeys
    rw [hlength, (hperm hkeys).length_eq, h.next_eq]

end numbered

/-! ### The loops -/

def familiesOf (propInfo : List PropertyMapping) : List Nat :=
  propInfo.zipIdx.map fun prop => familyOf prop.1 prop.2

theorem familiesOf_append (propInfo : List PropertyMapping) (prop : PropertyMapping) :
    familiesOf (propInfo ++ [prop]) = familiesOf propInfo ++ [familyOf prop propInfo.length] := by
  unfold familiesOf
  rw [List.zipIdx_append, List.map_append, Nat.zero_add]
  rfl

theorem familiesOf_length (propInfo : List PropertyMapping) :
    (familiesOf propInfo).length = propInfo.length := by
  unfold familiesOf
  rw [List.length_map, List.length_zipIdx]

def LabelMapping.Typed (m : LabelMapping) : Prop :=
  ∀ prop ∈ m.propInfo, columnType m.tableSchema (toLowerCase prop.dataField) ≠ none

instance (m : LabelMapping) : Decidable m.Typed :=
  inferInstanceAs (Decidable (∀ prop ∈ m.propInfo,
    columnType m.tableSchema (toLowerCase prop.dataField) ≠ none))

/-- The families have places in `column_family_info`. -/
def LabelMapping.InBounds (m : LabelMapping) : Prop :=
  ∀ f ∈ familiesOf m.propInfo, f < m.propInfo.length

/-- The keys of the properties of a label in `property_id_map`. -/
def keysOf (label : Nat) (propInfo : List PropertyMapping) : List (String × Nat) :=
  propInfo.map fun prop => (prop.property, label)

structure Defined (isVertex : Bool) (label : Nat) (m : LabelMapping) (keys : List (String × Nat))
    (done : List PropertyMapping) (b : LabelBuild) : Prop where
  length : b.props.length = done.length
  familiesLength : b.families.length = m.propInfo.length
  placed : isVertex = true → Placed m.propInfo.length b ∧
    b.props.map SchemaProp.columnFamily = familiesOf done
  numbered : Numbered (keys ++ keysOf label done) b.propertyIdMap b.propOffset

section loops
variable {isVertex : Bool} {label : Nat} {m : LabelMapping} {keys : List (String × Nat)}
  {done : List PropertyMapping} {b : LabelBuild} {prop : PropertyMapping}

theorem define_spec (h : Defined isVertex label m keys done b) (hsub : done ++ [prop] <+: m.propInfo) :
    Ensures (b.define isVertex label m.tableSchema prop)
      (Defined isVertex label m keys (done ++ [prop]))
      (fun _ => ¬ (m.Typed ∧ (isVertex = true → m.InBounds))) := by
  have hmem : prop ∈ m.propInfo := hsub.subset (List.mem_append_right _ List.mem_cons_self)
  have hfamily : familyOf prop b.props.length ∈ familiesOf m.propInfo := by
    obtain ⟨rest, hrest⟩ := hsub
    rw [← hrest, h.length]
    unfold familiesOf
    rw [List.zipIdx_append, List.zipIdx_append, List.map_append, List.map_append, Nat.zero_add]
    simp
  have hkeys : keys ++ keysOf label (done ++ [prop]) =
      (keys ++ keysOf label done) ++ [(prop.property, label)] := by
    unfold keysOf
    rw [List.map_append, List.append_assoc]
    rfl
  unfold LabelBuild.define
  dsimp only
  split
  · rename_i hout
    intro hgood
    have hlt := hgood.2 hout.1 _ hfamily
    rw [← h.familiesLength] at hlt
    omega
  · rename_i hin
    cases htype : columnType m.tableSchema (toLowerCase prop.dataField) with
    | none => exact fun hgood => hgood.1 prop hmem htype
    | some dtype =>
      have hnumbered := h.numbered.assign (prop.property, label)
      rw [← hkeys] at hnumbered
      cases isVertex with
      | false =>
        constructor
        · show (b.props ++ _).length = _
          rw [List.length_append, List.length_append, h.length]
          rfl
        · exact h.familiesLength
        · intro hvertex
          cases hvertex
        · exact hnumbered
      | true =>
        obtain ⟨hplaced, hfamilies⟩ := h.placed rfl
        have hlt : familyOf prop b.props.length < m.propInfo.length := by
          rw [← h.familiesLength]
          simp only [true_and, Nat.not_le] at hin
          exact hin
        have hnext := placed_place hplaced hlt dtype
        constructor
        · show (b.props ++ _).length = _
          rw [List.length_append, List.length_append, h.length]
          rfl
        · show (b.families.set _ _).length = _
          rw [List.length_set]
          exact h.familiesLength
        · intro _
          refine ⟨⟨hnext.length, hnext.families, hnext.family, hnext.offset, hnext.rankLength, hnext.rank,
            hnext.start, hnext.inside⟩, ?_⟩
          show (b.props ++ _).map _ = _
          rw [List.map_append, hfamilies, familiesOf_append, h.length]
          rfl
        · exact hnumbered

theorem defined_run {ids : List ((String × Nat) × Nat)} {propOffset : Nat}
    (h : Numbered keys ids propOffset) :
    Ensures (m.propInfo.foldlM (LabelBuild.define isVertex label m.tableSchema)
        { families := List.replicate m.propInfo.length ({}, false)
          propertyIdMap := ids, propOffset := propOffset })
      (Defined isVertex label m keys m.propInfo)
      (fun _ => ¬ (m.Typed ∧ (isVertex = true → m.InBounds))) := by
  refine @foldlM_invariant _ _ _ _ (Defined isVertex label m keys) _ [] m.propInfo _ ?_ ?_
  · constructor
    · rfl
    · exact List.length_replicate
    · intro _
      exact ⟨placed_replicate _ _ _, rfl⟩
    · show Numbered (keys ++ []) ids propOffset
      rw [List.append_nil]
      exact h
  · intro before prop after b hsplit hb
    refine define_spec hb ⟨after, ?_⟩
    rw [List.append_assoc]
    exact hsplit

end loops

/-- The first properties of the labels with these numbers of properties. -/
def offsetsOf (lens : List Nat) : List (Option Nat) :=
  (List.range lens.length).map fun k => if lens.getD k 0 ≠ 0 then some (lens.take k).sum else none

theorem offsetsOf_append (lens : List Nat) (n : Nat) :
    offsetsOf (lens ++ [n]) = offsetsOf lens ++ [if n ≠ 0 then some lens.sum else none] := by
  unfold offsetsOf
  rw [List.length_append, List.length_singleton, List.range_succ, List.map_append]
  congr 1
  · apply List.map_congr_left
    intro k hk
    have hlt := List.mem_range.mp hk
    rw [List.getD_append _ _ _ _ hlt, List.take_append_of_le_length (Nat.le_of_lt hlt)]
  · rw [List.map_singleton, List.getD_append_right _ _ _ _ (Nat.le_refl _), Nat.sub_self,
      List.take_append_of_le_length (Nat.le_refl _), List.take_length]
    rfl

theorem offsetsOf_length (lens : List Nat) : (offsetsOf lens).length = lens.length := by
  unfold offsetsOf
  rw [List.length_map, List.length_range]

theorem getElem?_offsetsOf (lens : List Nat) {k : Nat} (hk : k < lens.length) :
    (offsetsOf lens)[k]? = some (if lens.getD k 0 ≠ 0 then some (lens.take k).sum else none) := by
  unfold offsetsOf
  rw [List.getElem?_map, List.getElem?_range hk]
  rfl

def allKeys (ms : List LabelMapping) : List (String × Nat) :=
  ms.zipIdx.flatMap fun m => keysOf m.2 m.1.propInfo

theorem allKeys_append (ms : List LabelMapping) (m : LabelMapping) :
    allKeys (ms ++ [m]) = allKeys ms ++ keysOf ms.length m.propInfo := by
  unfold allKeys
  rw [List.zipIdx_append, List.flatMap_append, Nat.zero_add]
  simp

theorem allKeys_length (ms : List LabelMapping) :
    (allKeys ms).length = (ms.map fun m => m.propInfo.length).sum := by
  induction ms using List.reverseRecOn with
  | nil => rfl
  | append_singleton ms m ih =>
    rw [allKeys_append, List.length_append, ih, List.map_append, List.sum_append]
    unfold keysOf
    simp

structure Labelled (ms : List LabelMapping) (s : SchemaBuild) : Prop where
  labels : Numbered (ms.map LabelMapping.name) s.schema.labelIdMap ms.length
  numbered : Numbered (allKeys ms) s.schema.propertyIdMap s.propOffset
  lens : s.schema.props.map List.length = ms.map fun m => m.propInfo.length
  offsets : s.schema.label2PropOffset = offsetsOf (ms.map fun m => m.propInfo.length)

/-- The layouts of the vertex labels are those of their properties. -/
structure VerticesLaid (vs : List LabelMapping) (s : SchemaBuild) : Prop where
  length : s.layouts.length = vs.length
  laid : ∀ (idx : Nat) (m : LabelMapping), vs[idx]? = some m → ∃ b, Placed m.propInfo.length b ∧
    b.props.map SchemaProp.columnFamily = familiesOf m.propInfo ∧
    s.layouts[idx]? = some { b.layout with colFamilies := compact b.families } ∧
    s.schema.props[idx]? = some b.props

def LabelMapping.Accepted (isVertex : Bool) (m : LabelMapping) : Prop :=
  m.Typed ∧ (isVertex = true → m.InBounds)

section labels
variable {isVertex : Bool} {ms vs : List LabelMapping} {m : LabelMapping} {s : SchemaBuild}

theorem Labelled.props_length (h : Labelled ms s) : s.schema.props.length = ms.length := by
  have hlens := congrArg List.length h.lens
  rw [List.length_map, List.length_map] at hlens
  exact hlens

theorem defineLabel_spec (h : Labelled ms s) :
    Ensures (s.defineLabel isVertex m)
      (fun s' => Labelled (ms ++ [m]) s' ∧ s'.schema.elabelOffset = s.schema.elabelOffset ∧
        ∃ b, (isVertex = true → Placed m.propInfo.length b ∧
          b.props.map SchemaProp.columnFamily = familiesOf m.propInfo) ∧
          s'.schema.props = s.schema.props ++ [b.props] ∧
          s'.layouts = if isVertex then s.layouts ++ [{ b.layout with colFamilies := compact b.families }]
            else s.layouts)
      (fun _ => ¬ m.Accepted isVertex) := by
  unfold SchemaBuild.defineLabel
  refine Ensures.bind (@defined_run isVertex s.schema.props.length m _ _ _ h.numbered) ?_
  intro b hb
  refine ⟨⟨?_, ?_, ?_, ?_⟩, rfl, b, fun hvertex => hb.placed hvertex, rfl, rfl⟩
  · have hlabels := h.labels.assign m.name
    rw [← List.map_singleton, ← List.map_append, ← h.props_length] at hlabels
    rw [List.length_append, List.length_singleton, ← h.props_length]
    exact hlabels
  · have hnumbered := hb.numbered
    rw [h.props_length, ← allKeys_append] at hnumbered
    exact hnumbered
  · show (s.schema.props ++ [b.props]).map List.length = _
    rw [List.map_append, List.map_append, h.lens, List.map_singleton, List.map_singleton, hb.length]
  · show s.schema.label2PropOffset ++ _ = _
    rw [List.map_append, List.map_singleton, offsetsOf_append, h.offsets, h.numbered.next_eq,
      allKeys_length]

theorem vertices_spec (h : Labelled vs s) (hlaid : VerticesLaid vs s) :
    Ensures (s.defineLabel true m)
      (fun s' => (Labelled (vs ++ [m]) s' ∧ VerticesLaid (vs ++ [m]) s') ∧
        s'.schema.elabelOffset = s.schema.elabelOffset)
      (fun _ => ¬ m.Accepted true) := by
  refine (defineLabel_spec h).imp ?_
  intro s' hs'
  obtain ⟨hlabelled, hoffset, b, hplaced, hprops, hlayouts⟩ := hs'
  rw [if_pos rfl] at hlayouts
  refine ⟨⟨hlabelled, ?_, ?_⟩, hoffset⟩
  · rw [hlayouts, List.length_append, List.length_append, hlaid.length]
    rfl
  · intro idx m' hm'
    rcases getElem?_concat_cases hm' with hold | ⟨rfl, rfl⟩
    · have hlt := (List.getElem?_eq_some_iff.mp hold).1
      obtain ⟨b', h1, h2, h3, h4⟩ := hlaid.laid idx m' hold
      refine ⟨b', h1, h2, ?_, ?_⟩
      · rw [hlayouts, List.getElem?_append_left (by rw [hlaid.length]; exact hlt)]
        exact h3
      · rw [hprops, List.getElem?_append_left (by rw [h.props_length]; exact hlt)]
        exact h4
    · refine ⟨b, (hplaced rfl).1, (hplaced rfl).2, ?_, ?_⟩
      · rw [hlayouts, List.getElem?_append_right (Nat.le_of_eq hlaid.length),
          hlaid.length, Nat.sub_self]
        rfl
      · rw [hprops, List.getElem?_append_right (Nat.le_of_eq h.props_length),
          h.props_length, Nat.sub_self]
        rfl

theorem edges_spec (h : Labelled ms s) (hlaid : VerticesLaid vs s) :
    Ensures (s.defineLabel false m)
      (fun s' => (Labelled (ms ++ [m]) s' ∧ VerticesLaid vs s') ∧
        s'.schema.elabelOffset = s.schema.elabelOffset)
      (fun _ => ¬ m.Accepted false) := by
  refine (defineLabel_spec h).imp ?_
  intro s' hs'
  obtain ⟨hlabelled, hoffset, b, -, hprops, hlayouts⟩ := hs'
  refine ⟨⟨hlabelled, ?_, ?_⟩, hoffset⟩
  · rw [hlayouts]
    exact hlaid.length
  · intro idx m' hm'
    obtain ⟨b', h1, h2, h3, h4⟩ := hlaid.laid idx m' hm'
    refine ⟨b', h1, h2, ?_, ?_⟩
    · rw [hlayouts]
      exact h3
    · rw [hprops, List.getElem?_append_left (List.getElem?_eq_some_iff.mp h4).1]
      exact h4

/-- Every column has a type that the store has, and every vertex property a place for its family. -/
def GraphMapping.Accepted (m : GraphMapping) : Prop :=
  (∀ v ∈ m.vertexTypes, v.Accepted true) ∧ ∀ e ∈ m.edgeTypes, e.Accepted false

theorem initGraphSchema_spec (m : GraphMapping) :
    Ensures (initGraphSchema m)
      (fun s => (Labelled (m.vertexTypes ++ m.edgeTypes) s ∧ VerticesLaid m.vertexTypes s) ∧
        s.schema.elabelOffset = m.vertexTypes.length)
      (fun _ => ¬ m.Accepted) := by
  unfold initGraphSchema
  have hvertices := @foldlM_invariant _ _ _ (SchemaBuild.defineLabel true)
    (fun vs s => (Labelled vs s ∧ VerticesLaid vs s) ∧ s.schema.elabelOffset = m.vertexTypes.length)
    (fun _ => ¬ m.Accepted) [] m.vertexTypes { schema := { elabelOffset := m.vertexTypes.length } }
    ⟨⟨⟨numbered_nil, numbered_nil, rfl, rfl⟩, rfl, fun _ _ h => by cases h⟩, rfl⟩ ?_
  · refine Ensures.bind hvertices ?_
    intro s hs
    refine @foldlM_invariant _ _ _ (SchemaBuild.defineLabel false)
      (fun es s => (Labelled (m.vertexTypes ++ es) s ∧ VerticesLaid m.vertexTypes s) ∧
        s.schema.elabelOffset = m.vertexTypes.length)
      (fun _ => ¬ m.Accepted) [] m.edgeTypes s ?_ ?_
    · rw [List.append_nil]
      exact hs
    · intro before e after s' hsplit hs'
      rw [← List.append_assoc]
      refine (edges_spec hs'.1.1 hs'.1.2).mono (fun _ h => ⟨h.1, h.2.trans hs'.2⟩) ?_
      intro _ hnot hall
      refine hnot (hall.2 e ?_)
      rw [List.nil_append] at hsplit
      rw [← hsplit]
      exact List.mem_append_right _ List.mem_cons_self
  · intro before v after s hsplit hs
    refine (vertices_spec hs.1.1 hs.1.2).mono (fun _ h => ⟨h.1, h.2.trans hs.2⟩) ?_
    intro _ hnot hall
    refine hnot (hall.1 v ?_)
    rw [List.nil_append] at hsplit
    rw [← hsplit]
    exact List.mem_append_right _ List.mem_cons_self

end labels

/-! ### What is published -/

def GraphMapping.DistinctNames (m : GraphMapping) : Prop :=
  ∀ label ∈ m.vertexTypes ++ m.edgeTypes, (label.propInfo.map PropertyMapping.property).Nodup

instance (m : GraphMapping) : Decidable m.DistinctNames :=
  inferInstanceAs (Decidable (∀ label ∈ m.vertexTypes ++ m.edgeTypes,
    (label.propInfo.map PropertyMapping.property).Nodup))

def GraphMapping.DistinctLabels (m : GraphMapping) : Prop :=
  ((m.vertexTypes ++ m.edgeTypes).map LabelMapping.name).Nodup

instance (m : GraphMapping) : Decidable m.DistinctLabels :=
  inferInstanceAs (Decidable (List.Nodup _))

theorem nodup_keysOf (label : Nat) (propInfo : List PropertyMapping) :
    (keysOf label propInfo).Nodup ↔ (propInfo.map PropertyMapping.property).Nodup := by
  have hkeys : keysOf label propInfo =
      (propInfo.map PropertyMapping.property).map fun name => (name, label) := by
    unfold keysOf
    rw [List.map_map]
    rfl
  rw [hkeys]
  exact List.nodup_map_iff fun a b h => congrArg Prod.fst h

theorem label_lt_of_mem {ms : List LabelMapping} {key : String × Nat} (h : key ∈ allKeys ms) :
    key.2 < ms.length := by
  obtain ⟨m, hm, hkey⟩ := List.mem_flatMap.mp h
  obtain ⟨prop, -, rfl⟩ := List.mem_map.mp hkey
  have hlt := (List.mem_zipIdx (i := m.2) (x := m.1) hm).2.1
  rw [Nat.zero_add] at hlt
  exact hlt

theorem nodup_allKeys (ms : List LabelMapping) :
    (allKeys ms).Nodup ↔ ∀ m ∈ ms, (m.propInfo.map PropertyMapping.property).Nodup := by
  induction ms using List.reverseRecOn with
  | nil => simp [allKeys]
  | append_singleton ms m ih =>
    rw [allKeys_append, List.nodup_append, ih, nodup_keysOf]
    constructor
    · rintro ⟨hold, hnew, -⟩ x hx
      rcases List.mem_append.mp hx with hx | hx
      · exact hold x hx
      · rw [List.mem_singleton.mp hx]
        exact hnew
    · intro hall
      refine ⟨fun x hx => hall x (List.mem_append_left _ hx), hall m (by simp), ?_⟩
      intro key hkey key' hkey' heq
      have hlt := label_lt_of_mem hkey
      obtain ⟨prop, -, rfl⟩ := List.mem_map.mp hkey'
      rw [heq] at hlt
      exact Nat.lt_irrefl _ hlt

theorem next_offset (lens : List Nat) {k : Nat} (hk : k ≤ lens.length) :
    (((offsetsOf lens).drop k).findSome? id).getD lens.sum = (lens.take k).sum := by
  obtain ⟨n, hn⟩ : ∃ n, n = lens.length - k := ⟨_, rfl⟩
  induction n generalizing k with
  | zero =>
    have hall : k = lens.length := by omega
    subst hall
    rw [List.drop_of_length_le (Nat.le_of_eq (offsetsOf_length lens)), List.take_length]
    rfl
  | succ n ih =>
    have hlt : k < lens.length := by omega
    have hlength : k < (offsetsOf lens).length := by
      rw [offsetsOf_length]
      exact hlt
    have hget : (offsetsOf lens)[k] = if lens.getD k 0 ≠ 0 then some (lens.take k).sum else none :=
      (List.getElem_eq_iff hlength).mpr (getElem?_offsetsOf lens hlt)
    rw [List.drop_eq_getElem_cons hlength, hget]
    by_cases hzero : lens.getD k 0 ≠ 0
    · rw [if_pos hzero]
      rfl
    · rw [if_neg hzero, List.findSome?_cons_of_isNone rfl, ih (by omega) (by omega),
        List.take_succ_eq_append_getElem hlt, List.sum_append]
      rw [List.getD_eq_getElem _ _ hlt] at hzero
      simp only [ne_eq, Decidable.not_not] at hzero
      rw [hzero]
      rfl

/-- What a reader of the schema gets for a property of a vertex label. -/
structure Published (prop : SchemaProp) (d : PropDef) : Prop where
  dtype : d.dtype = prop.dtype
  columnFamilyId : d.columnFamilyId = prop.columnFamily
  columnFamilyOffset : d.columnFamilyOffset = prop.columnFamilyOffset

structure PublishedIn (schema : SchemaImpl) (label : Nat) (prop : SchemaProp) (d : PropDef) : Prop where
  dtype : d.dtype = prop.dtype
  vertex : label < schema.elabelOffset → Published prop d

section publish
variable {ms : List LabelMapping} {s : SchemaBuild}

theorem propertyDefList_spec (h : Labelled ms s) (hnames : (allKeys ms).Nodup) {label : Nat}
    {props : List SchemaProp} (hprops : s.schema.props[label]? = some props) :
    ∃ ds, s.schema.propertyDefList label = .ok ds ∧ List.Forall₂ (PublishedIn s.schema label) props ds := by
  have hlens : s.schema.props.map List.length = ms.map fun m => m.propInfo.length := h.lens
  have htotal : s.schema.propertyIdMap.length = (s.schema.props.map List.length).sum := by
    rw [h.numbered.length_eq_iff.mpr hnames, h.numbered.next_eq, allKeys_length, hlens]
  obtain ⟨hlt, hget⟩ := List.getElem?_eq_some_iff.mp hprops
  generalize hlensEq : s.schema.props.map List.length = lens at hlens htotal
  have hlt' : label < lens.length := by
    rw [← hlensEq, List.length_map]
    exact hlt
  have hlen : lens.getD label 0 = props.length := by
    rw [List.getD_eq_getElem _ _ hlt']
    simp only [← hlensEq, List.getElem_map, hget]
  have hoffset : (s.schema.label2PropOffset[label]?).bind id =
      if props.length ≠ 0 then some (lens.take label).sum else none := by
    rw [h.offsets, ← hlens, getElem?_offsetsOf _ hlt', hlen]
    rfl
  have hend : s.schema.pidEnd label = (lens.take label).sum + props.length := by
    unfold SchemaImpl.pidEnd
    rw [h.offsets, ← hlens, htotal, next_offset lens (Nat.succ_le_of_lt hlt'),
      List.take_succ_eq_append_getElem hlt', List.sum_append]
    rw [List.getD_eq_getElem _ _ hlt'] at hlen
    rw [hlen]
    simp
  have hroom : (lens.take label).sum + props.length ≤ lens.sum := by
    have hsplit : (lens.take (label + 1)).sum + (lens.drop (label + 1)).sum = lens.sum := by
      rw [← List.sum_append, List.take_append_drop]
    rw [List.take_succ_eq_append_getElem hlt', List.sum_append] at hsplit
    rw [List.getD_eq_getElem _ _ hlt'] at hlen
    rw [hlen] at hsplit
    simp only [List.sum_cons, List.sum_nil] at hsplit
    omega
  unfold SchemaImpl.propertyDefList
  rw [hoffset]
  by_cases hnone : props.length ≠ 0
  · rw [if_pos hnone]
    dsimp only
    rw [hend, Nat.add_sub_cancel_left]
    have hdef : ∀ k ∈ List.range props.length, ∃ d,
        s.schema.propDef label (lens.take label).sum ((lens.take label).sum + k) = .ok d ∧
          ∃ prop, props[k]? = some prop ∧ PublishedIn s.schema label prop d := by
      intro k hk
      have hk := List.mem_range.mp hk
      unfold SchemaImpl.propDef
      rw [hprops, Nat.add_sub_cancel_left]
      dsimp only [Option.getD_some]
      rw [List.getElem?_eq_getElem hk, htotal]
      dsimp only
      rw [if_neg (by omega)]
      refine ⟨_, rfl, _, rfl, rfl, fun hvertex => ⟨rfl, ?_, ?_⟩⟩
      · exact if_pos hvertex
      · exact if_pos hvertex
    obtain ⟨ds, hds, hall⟩ := mapM_of_ok hdef
    refine ⟨ds, hds, ?_⟩
    obtain ⟨hlength, heach⟩ := List.forall₂_iff_get.mp hall
    rw [List.length_range] at hlength
    refine List.forall₂_iff_get.mpr ⟨hlength, fun k h1 h2 => ?_⟩
    obtain ⟨prop, hprop, hpublished⟩ := heach k (by rw [List.length_range]; exact h1) h2
    rw [List.get_eq_getElem, List.getElem_range, List.getElem?_eq_getElem h1] at hprop
    rw [List.get_eq_getElem, Option.some.inj hprop]
    exact hpublished
  · rw [if_neg hnone]
    refine ⟨[], rfl, ?_⟩
    simp only [ne_eq, Decidable.not_not, List.length_eq_zero_iff] at hnone
    rw [hnone]
    exact .nil

theorem Numbered.room_iff {κ : Type} {keys : List κ} {map : List (κ × Nat)} {next : Nat}
    (h : Numbered keys map next) : (map.any fun pair => decide (map.length ≤ pair.2)) = false ↔ keys.Nodup := by
  rw [List.any_eq_false]
  constructor
  · intro hroom
    refine h.length_eq_iff.mp (Nat.le_antisymm ?_ ?_)
    · have hsub : map.map Prod.fst ⊆ keys := fun key hkey => (h.mem key).mp hkey
      have hlength := List.Nodup.length_le_of_subset h.nodup hsub
      rw [List.length_map, ← h.next_eq] at hlength
      exact hlength
    · rcases Nat.eq_zero_or_pos next with hzero | hpos
      · omega
      · obtain ⟨pair, hpair, hlast⟩ := h.last hpos
        have hlt := hroom pair hpair
        rw [decide_eq_true_eq] at hlt
        omega
  · intro hnodup pair hpair
    rw [decide_eq_true_eq, h.length_eq_iff.mpr hnodup, Nat.not_le]
    exact h.lt pair hpair

/-- With no name given twice, the properties of every label are published in their order. -/
theorem fillJson_spec (h : Labelled ms s) (hnames : (allKeys ms).Nodup)
    (hlabels : (ms.map LabelMapping.name).Nodup) :
    ∃ defs, s.schema.fillJson = .ok defs ∧ defs.length = s.schema.props.length ∧
      ∀ (label : Nat) (props : List SchemaProp), s.schema.props[label]? = some props →
        ∃ ds, defs[label]? = some ds ∧ List.Forall₂ (PublishedIn s.schema label) props ds := by
  have hsize : s.schema.labelIdMap.length = s.schema.props.length := by
    rw [h.labels.length_eq_iff.mpr hlabels, h.props_length]
  unfold SchemaImpl.fillJson
  rw [h.numbered.room_iff.mpr hnames, h.labels.room_iff.mpr hlabels, hsize]
  simp only [Bool.false_eq_true, if_false]
  have hlists : ∀ label ∈ List.range s.schema.props.length, ∃ ds,
      (if (s.schema.labelIdMap.any fun pair => decide (pair.2 = label)) = true then
        s.schema.propertyDefList label else .ok []) = .ok ds ∧
        ∃ props, s.schema.props[label]? = some props ∧ List.Forall₂ (PublishedIn s.schema label) props ds := by
    intro label hlabel
    have hlt := List.mem_range.mp hlabel
    obtain ⟨pair, hpair, hnumber⟩ := h.labels.every hlabels label (by rw [← h.props_length]; exact hlt)
    rw [if_pos (List.any_eq_true.mpr ⟨pair, hpair, decide_eq_true hnumber⟩)]
    obtain ⟨ds, hds, hpublished⟩ := propertyDefList_spec h hnames (List.getElem?_eq_getElem hlt)
    exact ⟨ds, hds, _, List.getElem?_eq_getElem hlt, hpublished⟩
  obtain ⟨defs, hdefs, hall⟩ := mapM_of_ok hlists
  obtain ⟨hlength, heach⟩ := List.forall₂_iff_get.mp hall
  refine ⟨defs, hdefs, by rw [← hlength, List.length_range], fun label props hprops => ?_⟩
  have hlt := (List.getElem?_eq_some_iff.mp hprops).1
  have hlt' : label < defs.length := by
    rw [← hlength, List.length_range]
    exact hlt
  have hone := heach label (by rw [List.length_range]; exact hlt) hlt'
  rw [List.get_eq_getElem, List.getElem_range] at hone
  obtain ⟨props', hprops', hpublished⟩ := hone
  rw [hprops] at hprops'
  rw [Option.some.inj hprops']
  exact ⟨_, List.getElem?_eq_getElem hlt', hpublished⟩

theorem nodup_of_fillJson {defs : List (List PropDef)} (h : Labelled ms s) (hdefs : s.schema.fillJson = .ok defs) :
    (allKeys ms).Nodup ∧ (ms.map LabelMapping.name).Nodup := by
  unfold SchemaImpl.fillJson at hdefs
  split at hdefs
  · cases hdefs
  · rename_i hprops
    split at hdefs
    · cases hdefs
    · rename_i htypes
      rw [Bool.not_eq_true] at hprops htypes
      exact ⟨h.numbered.room_iff.mp hprops, h.labels.room_iff.mp htypes⟩

end publish

end Gart.Store
