import Gart.Seggraph.GraphRun
import Gart.Store.PropertyCol
import Gart.Store.VertexTable

/-!
# The graph store of a partition (graph_store.cc, graph_ops)

A store has for every vertex label two segment graphs, one for its inner and one for its
outer vertices, the vertex table, the properties of the inner vertices and the maps
between global and local ids. Writing operations go through `create_graph_writer`, whose
random draw is an argument here.
-/

namespace Gart.Store
open Gart.ByteMemory Gart.BitArray Gart.Outcome Gart.Fragment Gart.Seggraph

/-! ### Maps -/

/-- `hashmap_t::emplace` keeps the value a key already has. -/
def emplace {κ : Type} [DecidableEq κ] (map : κ → Option Nat) (key : κ) (value : Nat) : κ → Option Nat :=
  if map key = none then Function.update map key (some value) else map

/-! ### State -/

structure LabelStore where
  graph : SegGraph
  ovGraph : SegGraph
  property : PropertyColPaged
  layout : VertexLayout
  dtypes : List PropertyDataType
  vtable : VTable
  /-- `key_lid_map_` -/
  keyLid : Nat → Option Nat := fun _ => none
  ovg2l : Nat → Option Nat := fun _ => none
  ovl2g : Nat → Nat := fun _ => 0
  vertexMap : Int → Option Nat := fun _ => none
  /-- whether `external_id_dtype_` is `STRING` -/
  externalIdIsString : Bool
  externalIdStore : Nat → Nat := fun _ => 0
  outerExternalIdStore : Nat → Nat := fun _ => 0
  deletedInner : Nat := 0
  deletedOuter : Nat := 0

/-- `GraphStore` (`graph_store.h:75-632`) -/
structure GraphStore where
  idParser : IdParser
  localPid : Nat
  labels : List LabelStore
  /-- the property types of the edge labels -/
  edgeDtypes : List (List PropertyDataType)
  strings : StringBuffer
  regions : RegionBuffer
  /-- `USE_GLOBAL_VERTEX_MAP` -/
  globalVertexMap : Bool
  /-- what `assign_prop` writes for floating point numbers and time stamps -/
  assignOther : PropertyDataType → Memory → Nat → Bytes → Memory

def decimalOf (n : Nat) : Bytes := (toString n).toList.map fun c => UInt8.ofNat c.toNat

namespace GraphStore

def setLabel (s : GraphStore) (vlabel : Nat) (l : LabelStore) : GraphStore :=
  { s with labels := s.labels.set vlabel l }

def getLabel (s : GraphStore) (vlabel : Nat) : Except StoreFault LabelStore :=
  match s.labels[vlabel]? with
  | none => .error .outOfBounds
  | some l => .ok l

/-- `max_outer_id_offset` -/
def maxOuterIdOffset (s : GraphStore) : Nat := 2 ^ s.idParser.offsetWidth - 1

def onGraph (s : GraphStore) (vlabel : Nat) (f : SegGraph → Except Stop SegGraph) :
    Except StoreFault GraphStore := do
  let l ← s.getLabel vlabel
  let graph ← (f l.graph).mapError .graph
  return s.setLabel vlabel { l with graph := graph }

def onOvGraph (s : GraphStore) (vlabel : Nat) (f : SegGraph → Except Stop SegGraph) :
    Except StoreFault GraphStore := do
  let l ← s.getLabel vlabel
  let ovGraph ← (f l.ovGraph).mapError .graph
  return s.setLabel vlabel { l with ovGraph := ovGraph }

end GraphStore

/-! ### Vertices -/

namespace LabelStore

/-- `GraphStore::set_vertex_map` (`graph_store.cc:611-629`) -/
def setVertexMap (l : LabelStore) (oid : Int) (gid : Nat) : LabelStore :=
  { l with vertexMap := emplace l.vertexMap oid gid }

def mapExternalId (l : LabelStore) (externalId : Bytes) (gid : Nat) : Except StoreFault LabelStore :=
  if l.externalIdIsString then .ok l
  else do
    let oid ← readLong externalId
    return l.setVertexMap oid gid

/-- What is kept of an external id: its key in the string buffer, or the number. -/
def externalIdValue (l : LabelStore) (strings : StringBuffer) (externalId : Bytes) :
    Except StoreFault (Nat × StringBuffer) :=
  if l.externalIdIsString then strings.putCstring externalId
  else do
    let n ← readLong externalId
    return ((n % 2 ^ 64).toNat, strings)

end LabelStore

def putStrings (dtypes : List PropertyDataType) (strings : StringBuffer) (vprop : List Bytes) :
    Except StoreFault (List Bytes × StringBuffer) :=
  vprop.zipIdx.foldlM (fun (s : List Bytes × StringBuffer) prop =>
    match dtypes[prop.2]? with
    | none => .error .outOfBounds
    | some .string => do
      let (key, strings) ← s.2.putCstring prop.1
      return (s.1 ++ [decimalOf key], strings)
    | some _ => .ok (s.1 ++ [prop.1], s.2)) ([], strings)

namespace GraphStore

/-- The vertex map is kept for all vertices or, in a build without `USE_GLOBAL_VERTEX_MAP`, for those
of the partition. -/
def mapVertex (s : GraphStore) (globally : Bool) (l : LabelStore) (externalId : Bytes) (gid : Nat) :
    Except StoreFault LabelStore :=
  if s.globalVertexMap = globally then l.mapExternalId externalId gid else .ok l

/-- `insert_inner_vertex` (`graph_store.cc:518-594`) -/
def insertInnerVertex (s : GraphStore) (recycle : Bool) (epoch gid : Nat) (externalId : Bytes)
    (vprop : List Bytes) : Except StoreFault GraphStore := do
  let vlabel := s.idParser.getLabelId gid
  let l ← s.getLabel vlabel
  let l ← s.mapVertex true l externalId gid
  if s.idParser.getFid gid ≠ s.localPid then return s.setLabel vlabel l
  else
    let l ← s.mapVertex false l externalId gid
    let lid := s.idParser.generateId 0 vlabel (s.idParser.getOffset gid)
    let graph := l.graph.createGraphWriter recycle epoch
    let v := graph.vertexId
    let (_, property) := l.property.getNewOffset
    let vtable ← l.vtable.addInner lid
    let (value, strings) ← l.externalIdValue s.strings externalId
    let (args, strings) ← putStrings l.dtypes strings vprop
    let (property, regions) ← property.insert s.regions l.layout l.dtypes v epoch args
    let l := { l with
      graph := graph.newVertex, property := property, vtable := vtable
      externalIdStore := Function.update l.externalIdStore v value }
    return { s.setLabel vlabel l with strings := strings, regions := regions }

/-- `update_inner_vertex` (`graph_store.cc:596-609`) -/
def updateInnerVertex (s : GraphStore) (epoch gid : Nat) (vprop : List Bytes) :
    Except StoreFault GraphStore :=
  if s.idParser.getFid gid ≠ s.localPid then .ok s
  else do
    let vlabel := s.idParser.getLabelId gid
    let l ← s.getLabel vlabel
    let (property, regions, strings) ←
      l.property.update s.regions s.strings l.layout l.dtypes (s.idParser.getOffset gid) epoch vprop
    return { s.setLabel vlabel { l with property := property } with
      strings := strings, regions := regions }

/-! ### Edges -/

/-- `Property::assign_prop` for an edge property (`property.h:218-267`); an exception leaves the bytes as they are. -/
def assignProp (s : GraphStore) (dtype : PropertyDataType) (out : Memory) (a : Nat) (text : Bytes) : Memory :=
  match dtype with
  | .char => write out a (text.take 1)
  | .int | .date =>
    match readInt text with
    | .ok n => storeInt 32 out a n
    | .error _ => out
  | .long | .datetime | .time =>
    match readLong text with
    | .ok n => storeInt 64 out a n
    | .error _ => out
  | dtype => s.assignOther dtype out a text

/-- `edge_prop_prefix_bytes_` and, for all properties, `edge_prop_total_bytes_` -/
def edgePropBytes (dtypes : List PropertyDataType) : Nat := (dtypes.map PropertyDataType.size).sum

def edgeBitmapSize (dtypes : List PropertyDataType) : Nat := byteSize dtypes.length

/-- The bytes the store keeps for an edge with properties of these types. -/
def edgeDataSize (dtypes : List PropertyDataType) : Nat := edgePropBytes dtypes + edgeBitmapSize dtypes

/-- The body of the loop of `construct_eprop`. -/
def putEprop (s : GraphStore) (dtypes : List PropertyDataType) (st : Memory × StringBuffer)
    (prop : Bytes × Nat) : Except StoreFault (Memory × StringBuffer) :=
  let out := if prop.1 = [] then setBit st.1 prop.2 else st.1
  let propPtr := edgeBitmapSize dtypes + edgePropBytes (dtypes.take prop.2)
  match dtypes[prop.2]? with
  | none => .error .outOfBounds
  | some .string => do
    let (value, strings) ← st.2.putCstring prop.1
    return (if prop.1 = [] then out else store out propPtr 8 value, strings)
  | some dtype => .ok (if prop.1 = [] then out else s.assignProp dtype out propPtr prop.1, st.2)

/-- `construct_eprop` (`graph_store.cc:645-684`) -/
def constructEprop (s : GraphStore) (elabel : Nat) (eprop : List Bytes) :
    Except StoreFault (Bytes × StringBuffer) :=
  match s.edgeDtypes[elabel]? with
  | none => .error .outOfBounds
  | some dtypes => do
    let (out, strings) ← eprop.zipIdx.foldlM (s.putEprop dtypes) (fun _ => 0, s.strings)
    return (read out 0 (edgeDataSize dtypes), strings)

def outerLid (s : GraphStore) (vlabel ov : Nat) : Nat :=
  s.idParser.generateId 0 vlabel (s.maxOuterIdOffset - ov)

/-- An outer vertex that is met for the first time (`graph_store.h:242-245`). -/
def addOuterVertex (s : GraphStore) (l : LabelStore) (vlabel vid : Nat) (externalId : Bytes) :
    Except StoreFault (LabelStore × StringBuffer) := do
  let ov := l.ovGraph.vertexId
  let lid := s.outerLid vlabel ov
  let vtable ← l.vtable.addOuter lid
  let (value, strings) ← l.externalIdValue s.strings externalId
  let l := { l with
    ovGraph := l.ovGraph.newVertex, vtable := vtable
    keyLid := Function.update l.keyLid vid (some ov)
    ovg2l := emplace l.ovg2l vid lid
    ovl2g := Function.update l.ovl2g ov vid
    outerExternalIdStore := Function.update l.outerExternalIdStore ov value }
  let l ← s.mapVertex false l externalId vid
  return (l, strings)

/-- The vertex of an endpoint in another partition, with a writer for its graph. -/
def outerEndpoint (s : GraphStore) (recycle : Bool) (epoch vid : Nat) (externalId : Bytes) :
    Except StoreFault (Nat × GraphStore) := do
  let vlabel := s.idParser.getLabelId vid
  let l ← s.getLabel vlabel
  let l := { l with ovGraph := l.ovGraph.createGraphWriter recycle epoch }
  match l.keyLid vid with
  | some ov => return (ov, s.setLabel vlabel l)
  | none =>
    let (l', strings) ← s.addOuterVertex l vlabel vid externalId
    return (l.ovGraph.vertexId, { s.setLabel vlabel l' with strings := strings })

structure Draws where
  src : Bool
  dst : Bool
  outer : Bool
  deriving DecidableEq

/-- The elements of an `add_edge` record. -/
structure EdgeRecord where
  epoch : Nat
  elabel : Nat
  srcVid : Nat
  dstVid : Nat
  srcExternalId : Bytes
  dstExternalId : Bytes
  eprop : List Bytes
  deriving DecidableEq

/-- The writers of the graphs of both labels, and the properties of the edge. -/
def prepareEdge (s : GraphStore) (draws : Draws) (r : EdgeRecord) : Except StoreFault (Bytes × GraphStore) := do
  let s ← s.onGraph (s.idParser.getLabelId r.srcVid) fun g => .ok (g.createGraphWriter draws.src r.epoch)
  let s ← s.onGraph (s.idParser.getLabelId r.dstVid) fun g => .ok (g.createGraphWriter draws.dst r.epoch)
  let (edgeData, strings) ← s.constructEprop r.elabel r.eprop
  return (edgeData, { s with strings := strings })

/-- `process_add_edge` (`add_edge.cc:32-192`) -/
def processAddEdge (s : GraphStore) (draws : Draws) (r : EdgeRecord) : Except StoreFault GraphStore := do
  let srcFid := s.idParser.getFid r.srcVid
  let dstFid := s.idParser.getFid r.dstVid
  if srcFid ≠ s.localPid ∧ dstFid ≠ s.localPid then return s
  else
    let srcLabel := s.idParser.getLabelId r.srcVid
    let dstLabel := s.idParser.getLabelId r.dstVid
    let srcOffset := s.idParser.getOffset r.srcVid
    let dstOffset := s.idParser.getOffset r.dstVid
    let srcLid := s.idParser.generateId 0 srcLabel srcOffset
    let dstLid := s.idParser.generateId 0 dstLabel dstOffset
    let (edgeData, s) ← s.prepareEdge draws r
    if srcFid = s.localPid ∧ dstFid ≠ s.localPid then
      let (ov, s) ← s.outerEndpoint draws.outer r.epoch r.dstVid r.dstExternalId
      let s ← s.onGraph srcLabel fun g =>
        g.putEdge r.epoch srcOffset r.elabel .eout (s.outerLid dstLabel ov) edgeData
      s.onOvGraph dstLabel fun g => g.putEdge r.epoch ov r.elabel .ein srcLid edgeData
    else if srcFid ≠ s.localPid ∧ dstFid = s.localPid then
      let (ov, s) ← s.outerEndpoint draws.outer r.epoch r.srcVid r.srcExternalId
      let s ← s.onOvGraph srcLabel fun g => g.putEdge r.epoch ov r.elabel .eout dstLid edgeData
      s.onGraph dstLabel fun g =>
        g.putEdge r.epoch dstOffset r.elabel .ein (s.outerLid srcLabel ov) edgeData
    else
      let s ← s.onGraph srcLabel fun g => g.putEdge r.epoch srcOffset r.elabel .eout dstLid edgeData
      s.onGraph dstLabel fun g => g.putEdge r.epoch dstOffset r.elabel .ein srcLid edgeData

end GraphStore

end Gart.Store
