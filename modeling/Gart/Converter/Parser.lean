import Gart.Converter.Json
import Gart.Fragment.IdParser

/-!
# Parsing row changes

`converter/parser.{h,cc}`: the schema mapping of `TxnLogParser::init` and the
first of the two parsing steps, which turns a row change into log entries. The
assertions are not compiled into the release build.
-/

namespace Gart.Converter
open Gart.Decimal Gart.Fragment

/-- `USE_DEBEZIUM` or not -/
inductive Build
  | debezium
  | maxwell
  deriving DecidableEq

inductive EntityType
  | vertex
  | edge
  deriving DecidableEq

inductive OpType
  | insert
  | update
  | delete
  | bulkloadEnd
  | unknown
  deriving DecidableEq

inductive Snapshot
  | no
  | yes
  | last
  | other
  deriving DecidableEq

/-- `LogEntry` (`parser.h:42-115`); the members of the union that hold a gid are not initialised, and
`none` until one is assigned. A line of the unified log shows what such a member happens to hold. -/
structure LogEntry where
  entityType : EntityType := .vertex
  opType : OpType := .unknown
  epoch : Int := 0
  vertexGid : Option Int := none
  elabel : Nat := 0
  srcGid : Option Int := none
  dstGid : Option Int := none
  externalId : String := ""
  srcExternalId : String := ""
  dstExternalId : String := ""
  vlabel : Int := -1
  srcVlabel : Int := -1
  dstVlabel : Int := -1
  isStringOid : Bool := false
  isSrcStringOid : Bool := false
  isDstStringOid : Bool := false
  properties : List String := []
  valid : Bool := false
  updateHasFinishDelete : Bool := false
  allLabelsHaveProcess : Bool := false
  complete : Bool := true
  txId : Int := 0
  tableIdx : Nat := 0
  snapshot : Snapshot := .no
  deriving DecidableEq

namespace LogEntry

/-- `LogEntry::more_entires` (`parser.h:73-75`) -/
def moreEntires (e : LogEntry) : Bool := e.updateHasFinishDelete || !e.allLabelsHaveProcess

def lastSnapshot (e : LogEntry) : Bool := e.snapshot = .last

/-- `LogEntry::bulk_load_end` (`parser.cc:91-98`) -/
def bulkLoadEnd : LogEntry :=
  { valid := true, complete := true, epoch := 1, opType := .bulkloadEnd }

end LogEntry

/-! ### Schema mapping -/

structure VertexType where
  dataSourceName : String
  typeName : String
  idFieldName : String
  mappings : List String

structure EdgeType where
  dataSourceName : String
  edge : String
  sourceVertex : String
  destinationVertex : String
  sourceColumn : String
  destinationColumn : String
  dataFieldMappings : List String

/-- The mapping file, whose edge types join vertex types that it defines (`parser.cc:144-238`). -/
structure RgMapping where
  vertexTypes : List VertexType
  edgeTypes : List EdgeType
  known : ∀ e ∈ edgeTypes, e.sourceVertex ∈ vertexTypes.map VertexType.typeName ∧
    e.destinationVertex ∈ vertexTypes.map VertexType.typeName

/-- `to_lower_case` (`parser.cc:60-66`) -/
def toLowerCase (s : String) : String := String.ofList (s.toList.map Char.toLower)

namespace RgMapping
variable (m : RgMapping)

/-- `table2label_names_` (`parser.h:160`); a table without labels is not useful. -/
def labelNames (table : String) : List String :=
  (m.vertexTypes.filter fun v => toLowerCase v.dataSourceName = table).map VertexType.typeName ++
    (m.edgeTypes.filter fun e => toLowerCase e.dataSourceName = table).map EdgeType.edge

def vertexNames : List String := m.vertexTypes.map VertexType.typeName

def isVertexLabel (label : String) : Bool := label ∈ m.vertexNames

/-- `vertex_id_columns_` (`parser.h:167`), where the first type of a name stays. -/
def vertexIdColumn (label : String) : Option String :=
  (m.vertexTypes.find? fun v => v.typeName = label).map fun v => toLowerCase v.idFieldName

/-- `vertex_label2ids_` (`parser.h:162`) -/
def vertexLabelId (label : String) : Nat := m.vertexNames.idxOf label

/-- `elabel_names2elabel_` (`parser.h:163`) -/
def elabelId (label : String) : Nat := (m.edgeTypes.map EdgeType.edge).idxOf label

def edgeType (label : String) : Option EdgeType := m.edgeTypes.find? fun e => e.edge = label

/-- `edge_label_columns_` (`parser.h:169`) -/
def edgeColumns (e : EdgeType) : String × String :=
  (toLowerCase e.sourceColumn, toLowerCase e.destinationColumn)

/-- `edge_label2src_dst_labels_` (`parser.h:171`) -/
def edgeEndLabels (e : EdgeType) : Nat × Nat :=
  (m.vertexLabelId e.sourceVertex, m.vertexLabelId e.destinationVertex)

/-- `required_properties_` (`parser.h:165`); the names of edge properties keep their case. -/
def requiredProperties (label : String) : List String :=
  match m.vertexTypes.find? fun v => v.typeName = label with
  | some v => v.mappings.map toLowerCase
  | none => ((m.edgeType label).map EdgeType.dataFieldMappings).getD []

end RgMapping

/-- What `TxnLogParser` keeps unchanged after `init`. -/
structure ParserConfig where
  build : Build
  mapping : RgMapping
  subgraphNum : Nat

/-! ### The source block of an event -/

/-- The transaction id: `txId` for PostgreSQL, the GTID for MySQL. -/
def sourceTxId (source : Json) (type : String) : Except Fault Int := do
  let txId ← source.valueInt "txId" (-1)
  if txId = -1 then
    let gtidJson ← source.index "gtid"
    let gtid ← if gtidJson.isNull then .ok "" else gtidJson.getString
    if gtid ≠ "" then
      .ok (extractTxId gtid)
    else if type = "r" then
      .ok 0
    else
      .ok (-1)
  else
    .ok txId

def snapshotOf (text : String) : Snapshot :=
  if text = "last" then .last
  else if text = "true" then .yes
  else if text = "false" then .no
  else .other

def opTypeOf (build : Build) (type : String) : OpType :=
  match build with
  | .maxwell =>
    if type = "insert" then .insert
    else if type = "update" then .update
    else if type = "delete" then .delete
    else .unknown
  | .debezium =>
    if type = "c" then .insert
    else if type = "u" then .update
    else if type = "d" then .delete
    else if type = "r" then .insert
    else .unknown

/-- What an event says about itself, apart from its row. -/
structure Header where
  labels : List String
  opType : OpType
  txId : Int
  snapshot : Snapshot

def tableName (build : Build) (log : Json) : Except Fault String :=
  match build with
  | .debezium => do
    let source ← log.index "source"
    (← source.index "table").getString
  | .maxwell => do (← log.index "table").getString

/-- The checks of `parse` up to the operation type; `none` for a table that is not mapped. -/
def header (cfg : ParserConfig) (log : Json) : Except Fault (Option Header) := do
  let table ← tableName cfg.build log
  let labels := cfg.mapping.labelNames table
  if labels = [] then
    return none
  match cfg.build with
  | .debezium =>
    let type ← (← log.index "op").getString
    let source ← log.index "source"
    let txId ← sourceTxId source type
    let snapshot ← (← source.index "snapshot").getString
    if type = "r" ∧ snapshot = "false" then
      throw .operationError
    if opTypeOf .debezium type = .unknown then
      throw .operationError
    return some ⟨labels, opTypeOf .debezium type, txId, snapshotOf snapshot⟩
  | .maxwell =>
    let type ← (← log.index "type").getString
    if opTypeOf .maxwell type = .unknown then
      throw .operationError
    -- the transaction id is left unset and not read in this build
    return some ⟨labels, opTypeOf .maxwell type, 0, .no⟩

/-! ### Filling an entry -/

def rowOf (build : Build) (op : OpType) (log : Json) : Except Fault Json :=
  match build with
  | .maxwell => log.constIndex "data"
  | .debezium =>
    match op with
    | .insert => log.constIndex "after"
    | .delete => log.constIndex "before"
    | .update => log.constIndex "after"
    | _ => .ok .null

def column (build : Build) (row : Json) (name : String) : Except Fault Json :=
  match build with
  | .maxwell => row.constIndex name
  | .debezium => row.index name

def externalIdOf : Json → String × Bool
  | .integer n => (toString (wrap 64 n), false)
  | .string s => (s, true)
  | _ => ("", false)

/-- `TxnLogParser::fill_vertex` (`parser.cc:462-500`) -/
def fillVertex (cfg : ParserConfig) (label : String) (log : Json) (out : LogEntry) :
    Except Fault LogEntry := do
  let row ← rowOf cfg.build out.opType log
  match cfg.mapping.vertexIdColumn label with
  | none => throw .undefined
  | some vidCol => do
    let oid := externalIdOf (← column cfg.build row vidCol)
    return { out with
      vlabel := cfg.mapping.vertexLabelId label
      externalId := oid.1
      isStringOid := oid.2 }

/-- `TxnLogParser::fill_edge` (`parser.cc:502-552`) -/
def fillEdge (cfg : ParserConfig) (label : String) (log : Json) (out : LogEntry) :
    Except Fault LogEntry := do
  let row ← rowOf cfg.build out.opType log
  match cfg.mapping.edgeType label with
  | none => throw .undefined
  | some e => do
    let ends := cfg.mapping.edgeEndLabels e
    let out := { out with
      elabel := cfg.mapping.elabelId label
      srcVlabel := ends.1
      dstVlabel := ends.2 }
    let src ← column cfg.build row (RgMapping.edgeColumns e).1
    if src.isNull then
      return { out with complete := false }
    let dst ← column cfg.build row (RgMapping.edgeColumns e).2
    if dst.isNull then
      return { out with complete := false }
    return { out with
      srcExternalId := (externalIdOf src).1
      isSrcStringOid := (externalIdOf src).2
      dstExternalId := (externalIdOf dst).1
      isDstStringOid := (externalIdOf dst).2 }

/-- The text of a property; a value of another type adds none. -/
def propertyText : Json → List String
  | .string s => [s]
  | .integer n => [toString (wrap 64 n)]
  | .float printed _ => [printed]
  | .null => [""]
  | _ => []

/-- `TxnLogParser::fill_prop` (`parser.cc:554-593`) -/
def fillProp (cfg : ParserConfig) (label : String) (log : Json) (out : LogEntry) :
    Except Fault LogEntry := do
  let row ← rowOf cfg.build out.opType log
  let values ← (cfg.mapping.requiredProperties label).mapM (column cfg.build row)
  return { out with properties := values.flatMap propertyText }

/-! ### The first parsing step -/

namespace LogEntry

/-- The members that `parse` resets first. -/
def reset (out : LogEntry) : LogEntry :=
  { out with
    properties := [], valid := false, complete := true
    externalId := "", srcExternalId := "", dstExternalId := ""
    vlabel := -1, srcVlabel := -1, dstVlabel := -1
    isStringOid := false, isSrcStringOid := false, isDstStringOid := false }

/-- An update of an edge is a deletion first and an insertion in the next call. -/
def splitUpdate (out : LogEntry) : LogEntry :=
  if out.opType = .update ∧ out.entityType = .edge then
    if out.updateHasFinishDelete = false then
      { out with updateHasFinishDelete := true, opType := .delete }
    else
      { out with updateHasFinishDelete := false, opType := .insert }
  else
    out

/-- The next label of the table, unless the insertion of an update is left. -/
def nextLabel (labels : Nat) (out : LogEntry) : LogEntry :=
  let idx := if out.updateHasFinishDelete then out.tableIdx else out.tableIdx + 1
  if idx < labels then
    { out with tableIdx := idx, allLabelsHaveProcess := false, valid := true }
  else
    { out with tableIdx := 0, allLabelsHaveProcess := true, valid := true }

end LogEntry

def fillEntry (cfg : ParserConfig) (h : Header) (label : String) (log : Json) (out : LogEntry) :
    Except Fault LogEntry := do
  let entity := if cfg.mapping.isVertexLabel label then EntityType.vertex else .edge
  let out := { out with
    entityType := entity, opType := h.opType, txId := h.txId, snapshot := h.snapshot }.splitUpdate
  let out ← if entity = .vertex then fillVertex cfg label log out else fillEdge cfg label log out
  if out.opType ≠ .delete ∧ out.complete = true then fillProp cfg label log out else return out

/-- `TxnLogParser::parse` (`parser.cc:240-385`), after the text has been read as JSON. What it finds in
`unused_tables_` decides only about a line of the process's own log; when the threads are in it is
modelled with the threads. -/
def parse (cfg : ParserConfig) (out : LogEntry) (log : Json) : Except Fault LogEntry := do
  let out := out.reset
  match ← header cfg log with
  | none => return out
  | some h =>
    match h.labels[out.tableIdx]? with
    | none => throw .undefined
    | some label => do
      let out ← fillEntry cfg h label log out
      return out.nextLabel h.labels.length

end Gart.Converter
