import Gart.Seggraph.EntrySearch
import Gart.Store.PartitionRun

/-!
# Deletions (graph_ops/del_edge.cc, graph_ops/del_vertex.cc)

A deletion appends to an adjacency list an entry that holds the position of the deleted edge. An edge is in the list of
both of its ends, and each is searched for its own position.
-/

namespace Gart.Seggraph

def Dir.opposite : Dir → Dir
  | .eout => .ein
  | .ein => .eout

namespace SegGraph

/-- A marker for the newest edge of a list to a vertex that is searched. -/
def deleteEntry (g : SegGraph) (writeEpoch v label : Nat) (dir : Dir) (searched : Nat → Bool)
    (edgeData : ByteMemory.Bytes) : Except Stop SegGraph :=
  let segment := g.locateSegment (v / vertexPerSeg) label dir
  if segment = 0 then .error (.fault .nullBlock)
  else do
    let seg := g.segments segment
    let found ← (seg.findEntry searched (seg.regionPtrs (v % vertexPerSeg))).mapError .fault
    match found with
    | none => .ok g
    | some loc => g.putEdge writeEpoch v label dir (loc ||| deleteFlag) edgeData

/-- `delete_vertices` and `delete_loc` of a list. -/
def edgesToDelete (g : SegGraph) (v label : Nat) (dir : Dir) : Except Stop (List (Nat × Nat)) :=
  let segment := g.locateSegment (v / vertexPerSeg) label dir
  if segment = 0 then .ok []
  else
    let seg := g.segments segment
    let edgeBlock := seg.regionPtrs (v % vertexPerSeg)
    if edgeBlock = 0 ∨ seg.epochTables (v % vertexPerSeg) = 0 then .ok []
    else (seg.findEdges edgeBlock).mapError .fault

end SegGraph

end Gart.Seggraph

namespace Gart.Store
open Gart.ByteMemory Gart.Outcome Gart.Fragment Gart.Seggraph

def zeros (n : Nat) : Bytes := List.replicate n 0

/-- A vertex with the side of its label it is on, its number in the graph of that side, and the offset in its local
id. -/
structure VertexRef where
  outer : Bool
  vlabel : Nat
  index : Nat
  offset : Nat
  deriving DecidableEq, Repr

def LabelStore.side (l : LabelStore) (outer : Bool) : SegGraph := if outer then l.ovGraph else l.graph

namespace GraphStore

def onSide (s : GraphStore) (outer : Bool) (vlabel : Nat) (f : SegGraph → Except Stop SegGraph) :
    Except StoreFault GraphStore :=
  if outer then s.onOvGraph vlabel f else s.onGraph vlabel f

/-- `get_lid`, with none for `uint64_t(-1)` (`graph_store.h:309-315`) -/
def getLid (s : GraphStore) (vlabel key : Nat) : Option Nat := (s.labels[vlabel]?).bind fun l => l.keyLid key

/-! ### del_edge.cc -/

/-- An end of an edge; no segment covers the lid of an end that is not known. -/
def edgeEnd (s : GraphStore) (vid : Nat) : Except StoreFault VertexRef :=
  let vlabel := s.idParser.getLabelId vid
  if s.idParser.getFid vid = s.localPid then
    .ok ⟨false, vlabel, s.idParser.getOffset vid, s.idParser.getOffset vid⟩
  else
    match s.getLid vlabel vid with
    | none => .error .outOfBounds
    | some ov => .ok ⟨true, vlabel, ov, s.maxOuterIdOffset - ov⟩

def holdsOffset (s : GraphStore) (offset vid : Nat) : Bool :=
  s.idParser.getOffset vid = offset ∧ vid < deleteFlag

/-- `edge_prop_bytes` of `process_del_edge`: the properties, and `sizeof` of the `size_t` that
`get_edge_bitmap_size` returns. -/
def delEdgePropBytes (dtypes : List PropertyDataType) : Nat := edgePropBytes dtypes + 8

/-- `process_del_edge` (`del_edge.cc:26-247`) -/
def processDelEdge (s : GraphStore) (draws : Draws) (r : EdgeRecord) : Except StoreFault GraphStore :=
  if s.idParser.getFid r.srcVid ≠ s.localPid ∧ s.idParser.getFid r.dstVid ≠ s.localPid then .ok s
  else do
    let src ← s.edgeEnd r.srcVid
    let dst ← s.edgeEnd r.dstVid
    let edgeData := zeros (delEdgePropBytes (s.edgeDtypes.getD r.elabel []))
    let s ← s.onSide src.outer src.vlabel fun g => .ok (g.createGraphWriter draws.src r.epoch)
    let s ← s.onSide dst.outer dst.vlabel fun g => .ok (g.createGraphWriter draws.dst r.epoch)
    let s ← s.onSide src.outer src.vlabel fun g =>
      g.deleteEntry r.epoch src.index r.elabel .eout (s.holdsOffset dst.offset) edgeData
    s.onSide dst.outer dst.vlabel fun g =>
      g.deleteEntry r.epoch dst.index r.elabel .ein (s.holdsOffset src.offset) edgeData

/-! ### del_vertex.cc -/

/-- The draws of the writers of a deletion of a vertex: its own, and for the edges of a label in a direction. -/
structure VertexDraws where
  own : Bool
  neighbor : Dir → Nat → Nat → Bool

/-- Whether an entry of a neighbor's list holds the deleted vertex. -/
def holdsDeleted (s : GraphStore) (v : VertexRef) (vid : Nat) : Bool :=
  (if v.outer then s.maxOuterIdOffset - s.idParser.getOffset vid = v.index
    else s.idParser.getOffset vid = v.index) ∧ vid < deleteFlag

/-- The edge in the list of the neighbor; edges between outer vertices are left alone. -/
def deleteAtNeighbor (s : GraphStore) (recycle : Bool) (epoch elabel : Nat) (dir : Dir) (v : VertexRef)
    (edgeData : Bytes) (vid : Nat) : Except StoreFault GraphStore := do
  let offset := s.idParser.getOffset vid
  let vlabel := s.idParser.getLabelId vid
  let l ← s.getLabel vlabel
  if offset < l.vtable.maxInner then
    let s ← s.onGraph vlabel fun g => .ok (g.createGraphWriter recycle epoch)
    s.onGraph vlabel fun g => g.deleteEntry epoch offset elabel dir (s.holdsDeleted v) edgeData
  else if v.outer then return s
  else
    let s ← s.onOvGraph vlabel fun g => .ok (g.createGraphWriter recycle epoch)
    s.onOvGraph vlabel fun g =>
      g.deleteEntry epoch (s.maxOuterIdOffset - offset) elabel dir (s.holdsDeleted v) edgeData

/-- One round of the loop over `delete_loc`. -/
def deleteEdge (s : GraphStore) (recycle : Bool) (epoch elabel : Nat) (dir : Dir) (v : VertexRef)
    (found : Nat × Nat) : Except StoreFault GraphStore := do
  let edgeData := zeros (edgePropBytes (s.edgeDtypes.getD elabel []))
  let s ← s.onSide v.outer v.vlabel fun g =>
    g.putEdge epoch v.index elabel dir (found.2 ||| deleteFlag) edgeData
  s.deleteAtNeighbor recycle epoch elabel dir.opposite v edgeData found.1

def deleteEdges (s : GraphStore) (draws : VertexDraws) (epoch : Nat) (v : VertexRef) (dir : Dir) (elabel : Nat) :
    Except StoreFault GraphStore := do
  let l ← s.getLabel v.vlabel
  let found ← ((l.side v.outer).edgesToDelete v.index elabel dir).mapError .graph
  found.zipIdx.foldlM (fun s e => s.deleteEdge (draws.neighbor dir elabel e.2) epoch elabel dir v e.1) s

/-- The outgoing edges under all labels, then the incoming ones. -/
def deleteRelatedEdges (s : GraphStore) (draws : VertexDraws) (epoch : Nat) (v : VertexRef) :
    Except StoreFault GraphStore := do
  let elabels := List.range s.edgeDtypes.length
  let s ← elabels.foldlM (fun s elabel => s.deleteEdges draws epoch v .eout elabel) s
  elabels.foldlM (fun s elabel => s.deleteEdges draws epoch v .ein elabel) s

/-- The vertex leaves the table, and a writer for its graph is made. -/
def deleteFromTable (s : GraphStore) (recycle : Bool) (epoch : Nat) (v : VertexRef) : Except StoreFault GraphStore := do
  let l ← s.getLabel v.vlabel
  if v.outer then
    return s.setLabel v.vlabel { l with
      vtable := l.vtable.deleteOuter (s.outerLid v.vlabel v.index)
      deletedOuter := l.deletedOuter + 1
      ovGraph := l.ovGraph.createGraphWriter recycle epoch }
  else
    return s.setLabel v.vlabel { l with
      vtable := l.vtable.deleteInner s.idParser v.offset
      deletedInner := l.deletedInner + 1
      graph := l.graph.createGraphWriter recycle epoch }

/-- The two branches of `process_del_vertex` -/
def deleteVertex (s : GraphStore) (draws : VertexDraws) (epoch : Nat) (v : VertexRef) :
    Except StoreFault GraphStore := do
  let s ← s.deleteFromTable draws.own epoch v
  s.deleteRelatedEdges draws epoch v

/-- `process_del_vertex` (`del_vertex.cc:31-968`); nothing happens to a vertex that is not known. -/
def processDelVertex (s : GraphStore) (draws : VertexDraws) (epoch vid : Nat) : Except StoreFault GraphStore :=
  let vlabel := s.idParser.getLabelId vid
  if s.idParser.getFid vid = s.localPid then
    s.deleteVertex draws epoch ⟨false, vlabel, s.idParser.getOffset vid, s.idParser.getOffset vid⟩
  else
    match s.getLid vlabel vid with
    | none => .ok s
    | some ov => s.deleteVertex draws epoch ⟨true, vlabel, ov, s.maxOuterIdOffset - ov⟩

/-! ### Records -/

structure RecordDraws where
  edge : Draws
  vertex : VertexDraws

/-- `apply_log_to_store_` (`bench_runner.cc:566-743`) -/
def applyRecord (s : GraphStore) (r : RecordDraws × Record) : Except StoreFault GraphStore :=
  match r.2 with
  | .addVertex cmd => s.processAddVertex r.1.edge.src cmd
  | .updateVertex cmd => s.updateInnerVertex cmd.writeEpoch.toNat cmd.vid (cmd.props.map bytesOf)
  | .deleteVertex cmd => s.processDelVertex r.1.vertex cmd.writeEpoch.toNat cmd.vid
  | .addEdge cmd => s.processAddEdge r.1.edge cmd.toRecord
  | .deleteEdge cmd => s.processDelEdge r.1.edge cmd.toRecord
  | .bulkloadEnd _ => .ok s
  | .unsupported _ => .error .unsupported

end GraphStore

end Gart.Store
