import Mathlib.Data.List.Induction
import Mathlib.Data.List.Nodup
import Gart.Lib.Outcome

/-!
# PGQL definitions of a graph schema (pgql/GSchema.java)

A vertex type becomes a vertex table and is read back from it. An edge type refers to the labels of its ends, an
edge table to the tables of its ends, so the way back has to find a label for a table. The classes of pgql-lang are
records of what they are built from.
-/

namespace Gart.Pgql
open Gart.Outcome

/-! ### The classes of pgql-lang -/

structure SchemaQualifiedName where
  schemaName : String
  name : String
  deriving DecidableEq

structure Key where
  columnNames : List String
  deriving DecidableEq

/-- `Property`; its value is a reference to a column. -/
structure Property where
  columnName : String
  propertyName : String
  deriving DecidableEq

structure Label where
  name : String
  properties : List Property
  deriving DecidableEq

structure VertexTable where
  tableName : SchemaQualifiedName
  key : Key
  labels : List Label
  deriving DecidableEq

structure EdgeTable where
  tableName : SchemaQualifiedName
  sourceVertexTable : VertexTable
  edgeSourceKey : Key
  destinationVertexTable : VertexTable
  edgeDestinationKey : Key
  labels : List Label
  deriving DecidableEq

/-! ### The schema -/

inductive PgqlFault
  /-- element 0 of an empty list or array -/
  | indexOutOfBounds
  /-- the `RuntimeException` of a vertex table that is not found -/
  | noVertexTable
  deriving DecidableEq

/-- `Mapping`, with the name of its `dataField`. -/
structure Mapping where
  property : String
  dataField : String
  deriving DecidableEq

/-- `EdgeVertexMapping`, with the name of its `dataField`. -/
structure EdgeVertexMapping where
  dataField : String
  deriving DecidableEq

structure VertexType where
  typeName : String
  dataSourceName : String
  idFieldName : String
  mappings : List Mapping
  deriving DecidableEq

structure TypePair where
  edge : String
  sourceVertex : String
  destinationVertex : String
  deriving DecidableEq

structure EdgeType where
  typePair : TypePair
  dataSourceName : String
  sourceVertexMappings : List EdgeVertexMapping
  destinationVertexMappings : List EdgeVertexMapping
  dataFieldMappings : List Mapping
  deriving DecidableEq

/-- `GSchema`, with its vertex and edge types (`GSchema.java:279-340`). -/
structure GSchema where
  vertexTypes : List VertexType
  edgeTypes : List EdgeType
  deriving DecidableEq

/-- `get(0)`, `[0]` -/
def first {α : Type} : List α → Except PgqlFault α
  | [] => .error .indexOutOfBounds
  | x :: _ => .ok x

def Mapping.toProperty (mapping : Mapping) : Property :=
  { columnName := mapping.dataField, propertyName := mapping.property }

def Mapping.ofProperty (property : Property) : Mapping :=
  { property := property.propertyName, dataField := property.columnName }

/-- `convert` of a vertex type (`GSchema.java:97-117`) -/
def VertexType.convert (v : VertexType) : VertexTable :=
  { tableName := ⟨"", v.dataSourceName⟩
    key := ⟨[v.idFieldName]⟩
    labels := [{ name := v.typeName, properties := v.mappings.map Mapping.toProperty }] }

/-- The constructor from a vertex table (`GSchema.java:82-95`). -/
def VertexType.ofTable (vertexTable : VertexTable) : Except PgqlFault VertexType := do
  let idFieldName ← first vertexTable.key.columnNames
  let label ← first vertexTable.labels
  return {
    typeName := label.name
    dataSourceName := vertexTable.tableName.name
    idFieldName := idFieldName
    mappings := label.properties.map Mapping.ofProperty }

/-- The loops over the vertex tables: for each end the value of the last table that fits. -/
def findEnds {α : Type} (key : VertexTable → String → String) (value : VertexTable → String → α)
    (source destination : String) (vertexTables : List VertexTable) : Except PgqlFault (Option α × Option α) :=
  vertexTables.foldlM (fun found vertexTable => do
    let label ← first vertexTable.labels
    let fits := key vertexTable label.name
    return (if fits = source then some (value vertexTable label.name) else found.1,
      if fits = destination then some (value vertexTable label.name) else found.2)) (none, none)

/-- `convert` of an edge type (`GSchema.java:209-254`): the table of an end is looked up by its label. -/
def EdgeType.convert (e : EdgeType) (vertexTables : List VertexTable) : Except PgqlFault EdgeTable := do
  let srcKey ← first e.sourceVertexMappings
  let dstKey ← first e.destinationVertexMappings
  let ends ← findEnds (fun _ label => label) (fun vertexTable _ => vertexTable) e.typePair.sourceVertex
    e.typePair.destinationVertex vertexTables
  match ends with
  | (some srcVertexTable, some dstVertexTable) =>
    return {
      tableName := ⟨"", e.dataSourceName⟩
      sourceVertexTable := srcVertexTable
      edgeSourceKey := ⟨[srcKey.dataField]⟩
      destinationVertexTable := dstVertexTable
      edgeDestinationKey := ⟨[dstKey.dataField]⟩
      labels := [{ name := e.typePair.edge, properties := e.dataFieldMappings.map Mapping.toProperty }] }
  | _ => .error .noVertexTable

/-- The constructor from an edge table (`GSchema.java:161-207`): the label of an end is looked up by its table. -/
def EdgeType.ofTable (edgeTable : EdgeTable) (vertexTables : List VertexTable) : Except PgqlFault EdgeType := do
  let label ← first edgeTable.labels
  let ends ← findEnds (fun vertexTable _ => vertexTable.tableName.name) (fun _ label => label)
    edgeTable.sourceVertexTable.tableName.name edgeTable.destinationVertexTable.tableName.name vertexTables
  match ends with
  | (some sourceVertex, some destinationVertex) => do
    let srcColumn ← first edgeTable.edgeSourceKey.columnNames
    let dstColumn ← first edgeTable.edgeDestinationKey.columnNames
    return {
      typePair := ⟨label.name, sourceVertex, destinationVertex⟩
      dataSourceName := edgeTable.tableName.name
      sourceVertexMappings := [⟨srcColumn⟩]
      destinationVertexMappings := [⟨dstColumn⟩]
      dataFieldMappings := label.properties.map Mapping.ofProperty }
  | _ => .error .noVertexTable

/-- `getVertexTables` (`GSchema.java:283-290`) -/
def GSchema.vertexTables (s : GSchema) : List VertexTable := s.vertexTypes.map VertexType.convert

/-- An edge type that is built again from its definition and the vertex types. -/
def EdgeType.rebuild (e : EdgeType) (s : GSchema) : Except PgqlFault EdgeType := do
  let edgeTable ← e.convert s.vertexTables
  EdgeType.ofTable edgeTable s.vertexTables

/-! ### The round trip -/

/-- The last vertex type with a label, and the last one in a table. -/
def GSchema.lastLabelled (s : GSchema) (label : String) : Option VertexType :=
  s.vertexTypes.reverse.find? fun v => v.typeName = label

def GSchema.lastStored (s : GSchema) (table : String) : Option VertexType :=
  s.vertexTypes.reverse.find? fun v => v.dataSourceName = table

/-- The label is found again: it is the label of the last vertex type in the table of its own last vertex type. -/
def GSchema.Recovers (s : GSchema) (label : String) : Prop :=
  ∃ v w, s.lastLabelled label = some v ∧ s.lastStored v.dataSourceName = some w ∧ w.typeName = label

theorem ofProperty_toProperty (mappings : List Mapping) :
    (mappings.map Mapping.toProperty).map Mapping.ofProperty = mappings := by
  rw [List.map_map]
  exact List.map_id _

theorem vertexType_rebuild (v : VertexType) : VertexType.ofTable v.convert = .ok v := by
  unfold VertexType.ofTable VertexType.convert
  simp only [first]
  show Except.ok _ = _
  rw [ofProperty_toProperty]

theorem findEnds_convert {α : Type} (key : VertexTable → String → String) (value : VertexTable → String → α)
    (source destination : String) (vertexTypes : List VertexType) :
    findEnds key value source destination (vertexTypes.map VertexType.convert) =
      .ok ((vertexTypes.reverse.find? fun v => key v.convert v.typeName = source).map
          fun v => value v.convert v.typeName,
        (vertexTypes.reverse.find? fun v => key v.convert v.typeName = destination).map
          fun v => value v.convert v.typeName) := by
  unfold findEnds
  induction vertexTypes using List.reverseRecOn with
  | nil => rfl
  | append_singleton vertexTypes v ih =>
    rw [List.map_append, List.foldlM_append, ih, List.reverse_append]
    have hlast : ∀ end_, (if key v.convert v.typeName = end_ then some (value v.convert v.typeName)
        else (vertexTypes.reverse.find? fun v => key v.convert v.typeName = end_).map
          fun v => value v.convert v.typeName) =
        (([v].reverse ++ vertexTypes.reverse).find? fun v => key v.convert v.typeName = end_).map
          fun v => value v.convert v.typeName := by
      intro end_
      rw [List.reverse_singleton, List.singleton_append, List.find?_cons]
      by_cases hfits : key v.convert v.typeName = end_
      · simp [hfits]
      · simp [hfits]
    rw [← hlast, ← hlast]
    rfl

section rebuild
variable {s : GSchema} {e : EdgeType} {a b : EdgeVertexMapping} {as bs : List EdgeVertexMapping}

theorem convert_eq (hsource : e.sourceVertexMappings = a :: as) (hdestination : e.destinationVertexMappings = b :: bs) :
    e.convert s.vertexTables =
      match s.lastLabelled e.typePair.sourceVertex, s.lastLabelled e.typePair.destinationVertex with
      | some v, some w =>
        .ok {
          tableName := ⟨"", e.dataSourceName⟩
          sourceVertexTable := v.convert
          edgeSourceKey := ⟨[a.dataField]⟩
          destinationVertexTable := w.convert
          edgeDestinationKey := ⟨[b.dataField]⟩
          labels := [{ name := e.typePair.edge, properties := e.dataFieldMappings.map Mapping.toProperty }] }
      | _, _ => .error .noVertexTable := by
  unfold EdgeType.convert GSchema.vertexTables
  rw [hsource, hdestination, findEnds_convert]
  show (match ((s.lastLabelled e.typePair.sourceVertex).map VertexType.convert,
      (s.lastLabelled e.typePair.destinationVertex).map VertexType.convert) with
    | (some _, some _) => _
    | _ => _) = _
  cases s.lastLabelled e.typePair.sourceVertex with
  | none => rfl
  | some v =>
    cases s.lastLabelled e.typePair.destinationVertex with
    | none => rfl
    | some w => rfl

theorem ofTable_eq (edge table : String) (v w : VertexType) (srcColumn dstColumn : String) (mappings : List Mapping) :
    EdgeType.ofTable {
        tableName := ⟨"", table⟩
        sourceVertexTable := v.convert
        edgeSourceKey := ⟨[srcColumn]⟩
        destinationVertexTable := w.convert
        edgeDestinationKey := ⟨[dstColumn]⟩
        labels := [{ name := edge, properties := mappings.map Mapping.toProperty }] } s.vertexTables =
      match s.lastStored v.dataSourceName, s.lastStored w.dataSourceName with
      | some v', some w' =>
        .ok {
          typePair := ⟨edge, v'.typeName, w'.typeName⟩
          dataSourceName := table
          sourceVertexMappings := [⟨srcColumn⟩]
          destinationVertexMappings := [⟨dstColumn⟩]
          dataFieldMappings := mappings }
      | _, _ => .error .noVertexTable := by
  unfold EdgeType.ofTable GSchema.vertexTables
  dsimp only
  rw [findEnds_convert]
  show (match ((s.lastStored v.dataSourceName).map VertexType.typeName,
      (s.lastStored w.dataSourceName).map VertexType.typeName) with
    | (some _, some _) => _
    | _ => _) = _
  cases s.lastStored v.dataSourceName with
  | none => rfl
  | some v' =>
    cases s.lastStored w.dataSourceName with
    | none => rfl
    | some w' =>
      show Except.ok _ = Except.ok _
      rw [ofProperty_toProperty]

theorem recovers_of_nodup {v : VertexType} (htables : (s.vertexTypes.map VertexType.dataSourceName).Nodup)
    (hv : v ∈ s.vertexTypes) : s.Recovers v.typeName := by
  have hlabelled : (s.lastLabelled v.typeName).isSome := by
    rw [GSchema.lastLabelled, List.find?_isSome]
    exact ⟨v, List.mem_reverse.mpr hv, by simp⟩
  obtain ⟨w, hw⟩ := Option.isSome_iff_exists.mp hlabelled
  have hlabel := List.find?_some hw
  have hmem := List.mem_reverse.mp (List.mem_of_find?_eq_some hw)
  have hstored : (s.lastStored w.dataSourceName).isSome := by
    rw [GSchema.lastStored, List.find?_isSome]
    exact ⟨w, List.mem_reverse.mpr hmem, by simp⟩
  obtain ⟨u, hu⟩ := Option.isSome_iff_exists.mp hstored
  have htable := List.find?_some hu
  have hsame := List.inj_on_of_nodup_map htables (List.mem_reverse.mp (List.mem_of_find?_eq_some hu)) hmem
    (of_decide_eq_true htable)
  exact ⟨w, u, hw, hu, by rw [hsame]; exact of_decide_eq_true hlabel⟩

/-- A vertex type comes back from its definition. An edge type comes back from its definition and the vertex types
exactly if it has one key column for each end, and the label of each end is found again from its table; with one label
for each table it is. -/
theorem rebuild_iff (s : GSchema) : (∀ v : VertexType, VertexType.ofTable v.convert = .ok v) ∧
    (∀ e : EdgeType, e.rebuild s = .ok e ↔
      e.sourceVertexMappings.length = 1 ∧ e.destinationVertexMappings.length = 1 ∧
        s.Recovers e.typePair.sourceVertex ∧ s.Recovers e.typePair.destinationVertex) ∧
    ((s.vertexTypes.map VertexType.dataSourceName).Nodup → ∀ v ∈ s.vertexTypes, s.Recovers v.typeName) := by
  refine ⟨vertexType_rebuild, fun e => ?_, fun htables v hv => recovers_of_nodup htables hv⟩
  unfold EdgeType.rebuild
  cases hsource : e.sourceVertexMappings with
  | nil =>
    have hfault : e.convert s.vertexTables = .error .indexOutOfBounds := by
      unfold EdgeType.convert
      rw [hsource]
      rfl
    rw [hfault]
    show Except.error _ = _ ↔ _
    simp
  | cons a as =>
    cases hdestination : e.destinationVertexMappings with
    | nil =>
      have hfault : e.convert s.vertexTables = .error .indexOutOfBounds := by
        unfold EdgeType.convert
        rw [hsource, hdestination]
        rfl
      rw [hfault]
      show Except.error _ = _ ↔ _
      simp
    | cons b bs =>
      rw [convert_eq hsource hdestination]
      unfold GSchema.Recovers
      cases hv : s.lastLabelled e.typePair.sourceVertex with
      | none =>
        show Except.error _ = _ ↔ _
        simp
      | some v =>
        cases hw : s.lastLabelled e.typePair.destinationVertex with
        | none =>
          show Except.error _ = _ ↔ _
          simp
        | some w =>
          dsimp only [bind, Except.bind]
          rw [ofTable_eq]
          cases hv' : s.lastStored v.dataSourceName with
          | none => simp [hv']
          | some v' =>
            cases hw' : s.lastStored w.dataSourceName with
            | none => simp [hw']
            | some w' =>
              obtain ⟨⟨edge, source, destination⟩, table, sources, destinations, mappings⟩ := e
              dsimp only at hsource hdestination hv hw ⊢
              rw [hsource, hdestination]
              simp [hv', hw']
              tauto

end rebuild

/-- Two vertex types in one table, and edges from persons to persons. -/
def knows : EdgeType :=
  { typePair := ⟨"knows", "person", "person"⟩
    dataSourceName := "knows"
    sourceVertexMappings := [⟨"src"⟩]
    destinationVertexMappings := [⟨"dst"⟩]
    dataFieldMappings := [⟨"since", "since"⟩] }

def members : GSchema :=
  { vertexTypes := [⟨"person", "members", "id", [⟨"name", "name"⟩]⟩, ⟨"company", "members", "id", []⟩]
    edgeTypes := [knows] }

/-- The edges come back as edges from companies to companies. -/
theorem rebuild_members : knows ∈ members.edgeTypes ∧ knows.rebuild members =
      .ok { knows with typePair := ⟨"knows", "company", "company"⟩ } ∧ knows.rebuild members ≠ .ok knows := by
  refine ⟨List.mem_singleton_self _, rfl, ?_⟩
  intro heq
  have hpair : (⟨"knows", "company", "company"⟩ : TypePair) = ⟨"knows", "person", "person"⟩ :=
    congrArg EdgeType.typePair (Except.ok.inj (show Except.ok _ = Except.ok knows from heq))
  exact absurd hpair (by decide)

end Gart.Pgql
