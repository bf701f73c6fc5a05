import Gart.Seggraph.Blocks
import Gart.Seggraph.BlockManager

/-!
# Writing edges (seggraph/epoch_graph_writer.cpp, segment_graph.cpp)

The blocks of a `SegGraph` are kept by their pointer, one table for each kind
of block. `put_edge` is split at its stages: locate or create the segment, find
or make an edge block with space (growing by copy, chaining, or merging the
whole segment into a larger one), locate or create the epoch table, open a new
epoch, insert. The `goto start` branches need a second writer and are absent.
-/

namespace Gart.Seggraph
open Gart.ByteMemory Gart.Outcome

/-- `SegGraph`, with its blocks by pointer (`segment_graph.hpp:45-272`). -/
structure SegGraph where
  vertexId : Nat
  segId : Nat
  blockManager : BlockManager
  edgeLabelPtrs : Nat → Nat
  edgeIsUndirected : List Bool
  edgeLabelBlocks : Nat → EdgeLabelBlock
  epochBlocks : Nat → EpochBlock
  segments : Nat → VegitoSegment
  /-- pointer, order and epoch of segments replaced by a merge -/
  segmentsToRecycle : List (Nat × Nat × Nat)

/-- The `return` statements of `put_edge` behind a failed `block_manager.alloc`. -/
inductive AllocSite
  | segment
  | mergedSegment
  | epochTable
  | grownEpochTable
  deriving DecidableEq, Repr

inductive Stop
  /-- `check_vertex_id` throws -/
  | invalidVertexId
  /-- `put_edge` returns at a failed allocation, with its locks held -/
  | allocFailed (site : AllocSite) (g : SegGraph)
  /-- `update_edge_label_block` writes through the null pointer of a failed allocation -/
  | labelBlockAlloc
  /-- a block handed out does not lie in the manager's buffer -/
  | outsideBuffer
  | fault (f : Fault)

/-- The stops that come from the block manager running out of space. -/
def Stop.Exhausted : Stop → Prop
  | .allocFailed _ _ => True
  | .labelBlockAlloc => True
  | .outsideBuffer => True
  | .invalidVertexId => False
  | .fault _ => False

/-- `INIT_SEGMENT_ORDER` (`segment_graph.hpp:266`); the loop behind it never runs since the order already
covers ten headers. -/
def initSegmentOrder : Nat := 20

/-- `COPY_THRESHOLD_ORDER` (`segment_graph.hpp:264`) -/
def copyThresholdOrder : Nat := 3

/-- `DEFAULT_INIT_ORDER` (`epoch_graph_writer.hpp:65`) -/
def defaultInitOrder : Nat := 1

/-- `LAG_EPOCH_NUMBER` (`segment_graph.hpp:253`) -/
def lagEpochNumber : Nat := 2

/-! ### Copying edges between edge blocks -/

namespace VegitoSegment

/-- One round of the copy loops of `put_edge` and `merge_segment` (`blocks.hpp:541-548`). The old block is read from
`source seg`: from the segment itself when a block grows in place, from the old segment in a merge. -/
def copyEntry (source : VegitoSegment → VegitoSegment) (oldBlock newBlock edgePropSize : Nat)
    (i : Nat) (seg : VegitoSegment) : Except Fault VegitoSegment := do
  let seg' := seg.appendEntry newBlock ((source seg).getEntry oldBlock i)
  if edgePropSize > 0 then
    let oldOffset := (source seg').getAllocatedEdgeNum oldBlock + i
    let newOffset := seg'.getAllocatedEdgeNum newBlock + seg'.getNumEntries newBlock - 1
    let value ← (source seg').getProperty oldOffset edgePropSize
    seg'.appendProperty newOffset value
  else
    .ok seg'

def copyEntries (source : VegitoSegment → VegitoSegment) (oldBlock newBlock edgePropSize : Nat)
    (seg : VegitoSegment) : Except Fault VegitoSegment :=
  forRange (copyEntry source oldBlock newBlock edgePropSize) 0
    ((source seg).getNumEntries oldBlock) seg

/-- The new block of `put_edge` takes over from `edgeBlock`: chained from the
copy threshold on, else filled with a copy of the old entries. -/
def growBlock (seg : VegitoSegment) (edgeBlock newBlock order edgePropSize : Nat) :
    Except Fault VegitoSegment :=
  if order ≥ copyThresholdOrder then
    let prevNumEntries :=
      if edgeBlock ≠ 0 then seg.getPrevNumEntries edgeBlock + seg.getNumEntries edgeBlock else 0
    .ok (seg.fillBlock newBlock order edgeBlock prevNumEntries)
  else
    let seg' := seg.fillBlock newBlock order 0 0
    if edgeBlock ≠ 0 then
      copyEntries id edgeBlock newBlock edgePropSize seg'
    else
      .ok seg'

/-- `merged_edge_blocks`: the chain behind a block pointer, newest first. -/
def chainBlocks (seg : VegitoSegment) (fuel edgeBlock : Nat) : Except Fault (List Nat) :=
  if edgeBlock = 0 then .ok []
  else
    match fuel with
    | 0 => .error .endlessChain
    | fuel + 1 => do
      let older ← chainBlocks seg fuel (seg.getPrevPointer edgeBlock)
      .ok (edgeBlock :: older)

/-- The new block of vertex `i` in a merge, filled from the old blocks. -/
def mergeBlocks (old : VegitoSegment) (blocks : List Nat) (mergedOrder edgePropSize i : Nat)
    (new : VegitoSegment) : Except Fault (Nat × VegitoSegment) :=
  let allocated := new.alloc mergedOrder edgePropSize
  let seg := (allocated.2.setRegionPtr i allocated.1).setEpochTable i (old.epochTables i)
  if allocated.1 = 0 then
    .error .nullBlock
  else do
    let seg ← blocks.reverse.foldlM
      (fun seg block => copyEntries (fun _ => old) block allocated.1 edgePropSize seg)
      (seg.fillBlock allocated.1 mergedOrder 0 0)
    .ok (allocated.1, seg)

/-- One round of `merge_segment`: the chain of vertex `i` becomes one block.
`pending` is the vertex an edge is about to be inserted for. -/
def mergeVertex (old : VegitoSegment) (pending : Option Nat) (edgePropSize i : Nat)
    (state : VegitoSegment × Nat) : Except Fault (VegitoSegment × Nat) := do
  let blocks ← old.chainBlocks chainLimit (old.regionPtrs i)
  let newNumEntries := (blocks.map old.getNumEntries).sum
  if newNumEntries = 0 ∧ pending ≠ some i then
    .ok state
  else
    let mergedSize := if pending = some i then newNumEntries + 1 else newNumEntries
    let merged ← old.mergeBlocks blocks (sizeToOrder mergedSize) edgePropSize i state.1
    .ok (merged.2, if pending = some i then merged.1 else state.2)

/-- `merge_segment` (`epoch_graph_writer.cpp:388-456`); returns the block of the pending vertex too. -/
def mergeSegment (old new : VegitoSegment) (pending : Option Nat) (edgeBlock edgePropSize : Nat) :
    Except Fault (VegitoSegment × Nat) :=
  forRange (mergeVertex old pending edgePropSize) 0 vertexPerSeg (new, edgeBlock)

/-- `put_edge`: the entry goes behind the last one of the block and its property
into the slot of the same number. -/
def insertEdge (seg : VegitoSegment) (edgeBlock dst : Nat) (edgeData : Bytes) :
    Except Fault VegitoSegment :=
  let allocated := seg.getAllocatedEdgeNum edgeBlock + seg.getNumEntries edgeBlock
  let seg' := seg.appendEntry edgeBlock dst
  if edgeData.length > 0 then seg'.appendProperty allocated edgeData else .ok seg'

end VegitoSegment

/-! ### The graph -/

namespace SegGraph

/-- A graph without vertices over a buffer of `capacity` bytes (`segment_graph.hpp:52-106`). -/
def create (capacity : Nat) (edgeIsUndirected : List Bool) : SegGraph :=
  { vertexId := 0
    segId := 0
    blockManager := BlockManager.create capacity
    edgeLabelPtrs := fun _ => 0
    edgeIsUndirected := edgeIsUndirected
    edgeLabelBlocks := fun _ => { order := 0, entries := [] }
    epochBlocks := fun _ => { order := 0, entries := [], latestEpoch := 0 }
    segments := fun _ =>
      { order := 0, segmentId := 0, head := 0, allocatedEdgeNum := 0, regionPtrs := fun _ => 0
        epochTables := fun _ => 0, body := fun _ => 0 }
    segmentsToRecycle := [] }

def setSegment (g : SegGraph) (pointer : Nat) (seg : VegitoSegment) : SegGraph :=
  { g with segments := Function.update g.segments pointer seg }

def setEpochBlock (g : SegGraph) (pointer : Nat) (block : EpochBlock) : SegGraph :=
  { g with epochBlocks := Function.update g.epochBlocks pointer block }

def setEdgeLabelBlock (g : SegGraph) (pointer : Nat) (block : EdgeLabelBlock) : SegGraph :=
  { g with edgeLabelBlocks := Function.update g.edgeLabelBlocks pointer block }

/-- `is_edge_undirected` (`segment_graph.hpp:171-179`); labels beyond the table count as directed. -/
def isEdgeUndirected (g : SegGraph) (label : Nat) : Bool :=
  g.edgeIsUndirected.getD label false

/-- `new_vertex(bool)` (`epoch_graph_writer.cpp:22-76`). -/
def newVertex (g : SegGraph) : SegGraph :=
  let vertexId := g.vertexId
  let g' := { g with vertexId := vertexId + 1 }
  if vertexId / vertexPerSeg ≥ g.segId then
    { g' with
      segId := g.segId + 1
      edgeLabelPtrs := Function.update g.edgeLabelPtrs (g.segId + 1) 0 }
  else
    g'

/-- `block_manager.alloc`, with pointer `0` for a failure. -/
def allocBlock (g : SegGraph) (order : Nat) : Except Stop (Nat × SegGraph) :=
  let r := g.blockManager.alloc order
  if r.1 ≠ 0 ∧ r.1 + 2 ^ order > r.2.capacity then
    .error .outsideBuffer
  else
    .ok (r.1, { g with blockManager := r.2 })

/-- `EpochGraphWriter::locate_segment` (`epoch_graph_writer.cpp:78-95`) -/
def locateSegment (g : SegGraph) (segid label : Nat) (dir : Dir) : Nat :=
  let pointer := g.edgeLabelPtrs segid
  if pointer = 0 then 0
  else
    match (g.edgeLabelBlocks pointer).entries.find? (fun entry => entry.label == label) with
    | some entry => entry.getPointer dir
    | none => 0

/-- `set_pointer` of a label entry, in both directions for an undirected label. -/
def setLabelPointer (undirected : Bool) (dir : Dir) (pointer : Nat) (entry : EdgeLabelEntry) :
    EdgeLabelEntry :=
  if undirected then (entry.setPointer pointer .eout).setPointer pointer .ein
  else entry.setPointer pointer dir

/-- The loop of `update_edge_label_block`: the first entry of the label changes. -/
def rewriteLabelEntry (label : Nat) (change : EdgeLabelEntry → EdgeLabelEntry) :
    List EdgeLabelEntry → Option (List EdgeLabelEntry)
  | [] => none
  | entry :: rest =>
    if entry.label = label then some (change entry :: rest)
    else (rewriteLabelEntry label change rest).map (entry :: ·)

/-- A larger edge-label block with the old entries and the new one. -/
def replaceLabelBlock (g : SegGraph) (segid : Nat) (entries : List EdgeLabelEntry)
    (labelEntry : EdgeLabelEntry) : Except Stop SegGraph := do
  let order := sizeToOrder (edgeLabelHeaderSize + (1 + entries.length) * edgeLabelEntrySize)
  let (newPointer, g) ← g.allocBlock order
  if newPointer = 0 then
    .error .labelBlockAlloc
  else
    let block := (entries ++ [labelEntry]).foldl
      (fun block entry => (block.append entry).getD block) { order := order, entries := [] }
    let g := g.setEdgeLabelBlock newPointer block
    .ok { g with edgeLabelPtrs := Function.update g.edgeLabelPtrs segid newPointer }

/-- `EpochGraphWriter::update_edge_label_block` (`epoch_graph_writer.cpp:97-149`) -/
def updateEdgeLabelBlock (g : SegGraph) (segid label : Nat) (dir : Dir) (segmentPointer : Nat) :
    Except Stop SegGraph :=
  let pointer := g.edgeLabelPtrs segid
  let change := setLabelPointer (g.isEdgeUndirected label) dir segmentPointer
  let labelEntry := change { label := label, pointerOut := 0, pointerIn := 0 }
  if pointer = 0 then
    g.replaceLabelBlock segid [] labelEntry
  else
    let block := g.edgeLabelBlocks pointer
    match rewriteLabelEntry label change block.entries with
    | some entries => .ok (g.setEdgeLabelBlock pointer { block with entries := entries })
    | none =>
      match block.append labelEntry with
      | some block' => .ok (g.setEdgeLabelBlock pointer block')
      | none => g.replaceLabelBlock segid block.entries labelEntry

/-! ### put_edge -/

/-- The segment of `(segid, label, dir)`, allocated at its first edge. -/
def initSegment (g : SegGraph) (segid label : Nat) (dir : Dir) : Except Stop (Nat × SegGraph) := do
  let segment := g.locateSegment segid label dir
  if segment ≠ 0 then
    .ok (segment, g)
  else
    let (newPointer, g) ← g.allocBlock initSegmentOrder
    if newPointer = 0 then
      .error (.allocFailed .segment g)
    else
      let g := g.setSegment newPointer
        ((g.segments newPointer).fill newPointer initSegmentOrder segid)
      let g ← g.updateEdgeLabelBlock segid label dir newPointer
      .ok (newPointer, g)

def mergeIntoNewSegment (g : SegGraph) (writeEpochId segid label : Nat) (dir : Dir)
    (segidx segment edgePropSize : Nat) : Except Stop (Nat × Nat × SegGraph) := do
  let old := g.segments segment
  let newOrder := old.order + 1
  let (newPointer, g) ← g.allocBlock newOrder
  if newPointer = 0 then
    .error (.allocFailed .mergedSegment g)
  else
    let new := (g.segments newPointer).fill newPointer newOrder segid
    let (new, edgeBlock) ←
      (old.mergeSegment new (some segidx) (old.regionPtrs segidx) edgePropSize).mapError .fault
    let g := g.setSegment newPointer new
    let g := { g with
      segmentsToRecycle := g.segmentsToRecycle ++ [(segment, old.order, writeEpochId)] }
    let g ← g.updateEdgeLabelBlock segid label dir newPointer
    .ok (newPointer, edgeBlock, g)

/-- An edge block with space for one more entry, and the segment it lies in. -/
def roomForEdge (g : SegGraph) (writeEpochId segid label : Nat) (dir : Dir)
    (segidx segment edgePropSize : Nat) : Except Stop (Nat × Nat × SegGraph) := do
  let seg := g.segments segment
  let edgeBlock := seg.regionPtrs segidx
  if edgeBlock ≠ 0 ∧ seg.hasSpace edgeBlock then
    .ok (segment, edgeBlock, g)
  else
    let order := if edgeBlock ≠ 0 then seg.getOrder edgeBlock + 1 else defaultInitOrder
    let (newBlock, seg) := seg.alloc order edgePropSize
    let g := g.setSegment segment seg
    if newBlock = 0 then
      g.mergeIntoNewSegment writeEpochId segid label dir segidx segment edgePropSize
    else
      let seg ← (seg.growBlock edgeBlock newBlock order edgePropSize).mapError .fault
      .ok (segment, newBlock, g.setSegment segment (seg.setRegionPtr segidx newBlock))

/-- The epoch table of a vertex, with the initial entry at its first edge. -/
def initEpochTable (g : SegGraph) (writeEpochId segment segidx : Nat) :
    Except Stop (Nat × SegGraph) := do
  let table := (g.segments segment).epochTables segidx
  if table ≠ 0 then
    .ok (table, g)
  else
    let order := sizeToOrder (epochHeaderSize + epochEntrySize)
    let (newTable, g) ← g.allocBlock order
    if newTable = 0 then
      .error (.allocFailed .epochTable g)
    else
      let block := (EpochBlock.fill order writeEpochId).append
        { epoch := writeEpochId, offset := 0 }
      let g := g.setEpochBlock newTable block
      .ok (newTable, g.setSegment segment ((g.segments segment).setEpochTable segidx newTable))

/-- The table itself, or a copy of it in a block of the next order when full. -/
def roomForEpoch (g : SegGraph) (segment segidx table : Nat) : Except Stop (Nat × SegGraph) := do
  let block := g.epochBlocks table
  if block.hasSpace then
    .ok (table, g)
  else
    let order := block.order + 1
    let (newTable, g) ← g.allocBlock order
    if newTable = 0 then
      .error (.allocFailed .grownEpochTable g)
    else
      let newBlock := block.entries.reverse.foldl EpochBlock.append
        (EpochBlock.fill order block.latestEpoch)
      let g := g.setEpochBlock newTable newBlock
      .ok (newTable, g.setSegment segment ((g.segments segment).setEpochTable segidx newTable))

/-- A later epoch than the latest one gets an entry at the current end. -/
def openEpoch (g : SegGraph) (writeEpochId segment segidx edgeBlock table : Nat) :
    Except Stop SegGraph := do
  if writeEpochId > (g.epochBlocks table).latestEpoch then
    let (table, g) ← g.roomForEpoch segment segidx table
    let seg := g.segments segment
    let entry : EpochEntry :=
      { epoch := writeEpochId
        offset := seg.getPrevNumEntries edgeBlock + seg.getNumEntries edgeBlock }
    .ok (g.setEpochBlock table
      ({ g.epochBlocks table with latestEpoch := writeEpochId }.append entry))
  else
    .ok g

/-- `EpochGraphWriter::put_edge` (`epoch_graph_writer.cpp:151-386`) -/
def putEdge (g : SegGraph) (writeEpochId src label : Nat) (dir : Dir) (dst : Nat)
    (edgeData : Bytes) : Except Stop SegGraph := do
  if src ≥ g.vertexId then
    .error .invalidVertexId
  else
    let segid := src / vertexPerSeg
    let segidx := src % vertexPerSeg
    let (segment, g) ← g.initSegment segid label dir
    let (segment, edgeBlock, g) ←
      g.roomForEdge writeEpochId segid label dir segidx segment edgeData.length
    let (table, g) ← g.initEpochTable writeEpochId segment segidx
    let g ← g.openEpoch writeEpochId segment segidx edgeBlock table
    let seg ← ((g.segments segment).insertEdge edgeBlock dst edgeData).mapError .fault
    .ok (g.setSegment segment seg)

/-! ### Recycling replaced segments -/

/-- `recycle_segments` (`segment_graph.cpp:47-60`): segments replaced long enough ago go to the free lists. -/
def recycleSegments (g : SegGraph) (epochId : Nat) : SegGraph :=
  let old := g.segmentsToRecycle.filter fun s => s.2.2 + lagEpochNumber < epochId
  { g with
    blockManager := old.foldl (fun bm s => bm.free s.1 s.2.1) g.blockManager
    segmentsToRecycle :=
      g.segmentsToRecycle.filter fun s => !decide (s.2.2 + lagEpochNumber < epochId) }

/-- `create_graph_writer` recycles when its random draw says so (`segment_graph.cpp:38-45`). -/
def createGraphWriter (g : SegGraph) (recycle : Bool) (writeEpoch : Nat) : SegGraph :=
  if recycle then g.recycleSegments writeEpoch else g

end SegGraph

end Gart.Seggraph
