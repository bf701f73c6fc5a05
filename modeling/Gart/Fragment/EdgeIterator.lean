import Gart.Lib.MarkerLog
import Gart.Seggraph.Writer

/-!
# Reading edges (interfaces/fragment/iterator.h, gart_fragment.h)

The reader locates the segment of a vertex, finds in the epoch table where its
epoch ends, and walks the edge blocks from the newest visible entry to the
oldest, skipping entries that a delete marker names. The cursor is kept as the
number of entries of the block still ahead (`entries_ - entries_cursor_`).
-/

namespace Gart.Fragment
open Gart.ByteMemory Gart.Outcome Gart.Seggraph

/-- `locate_segment_` (`gart_fragment.h:1245-1280`): the segment pointer, `0` for none. -/
def locateSegment (g : SegGraph) (segId eLabel : Nat) (dir : Dir) : Nat :=
  let headerOffset := g.edgeLabelPtrs segId
  if headerOffset = 0 then 0
  else
    match (g.edgeLabelBlocks headerOffset).entries.find? (fun entry => entry.label == eLabel) with
    | some labelEntry => labelEntry.getPointer dir
    | none => 0

/-- `EdgeIterator` (`iterator.h:214-450`); a null `edge_block_header_` goes with null entry pointers. -/
structure EdgeIterator where
  segHeader : VegitoSegment
  edgeBlockHeader : Nat
  remaining : Nat
  edgePropSize : Nat
  edgePropOffset : Nat
  /-- `delete_offsets_`, the largest first -/
  deleteOffsets : List Nat

namespace EdgeIterator

def empty (segHeader : VegitoSegment) (edgePropSize : Nat) : EdgeIterator :=
  { segHeader := segHeader, edgeBlockHeader := 0, remaining := 0, edgePropSize := edgePropSize
    edgePropOffset := 0, deleteOffsets := [] }

inductive ReadEnd
  | nothing
  | whole
  | upTo (offset : Nat)
  deriving DecidableEq, Repr

/-- The scan of `init` over the epoch entries, newest first. `newer` is the entry
before, `none` at the newest one. -/
def findReadEnd (readEpoch : Nat) : Option EpochEntry → List EpochEntry → ReadEnd
  | _, [] => .nothing
  | newer, entry :: older =>
    if readEpoch ≥ entry.epoch then
      match newer with
      | none => .whole
      | some entry' => .upTo entry'.offset
    else
      findReadEnd readEpoch (some entry) older

/-- The loop of `init` to the block that holds the end of the epoch. -/
def walkBack (seg : VegitoSegment) (readEndOffset : Nat) : Nat → Nat → Except Fault Nat
  | 0, _ => .error .endlessChain
  | fuel + 1, edgeBlock =>
    if edgeBlock = 0 then .error .nullBlock
    else if seg.getPrevNumEntries edgeBlock ≥ readEndOffset then
      walkBack seg readEndOffset fuel (seg.getPrevPointer edgeBlock)
    else .ok edgeBlock

/-- The inner loop of `find_next_valid_cursor` on one block: the entries still
ahead, the queue, and whether a valid entry was found. -/
def scanBlock (seg : VegitoSegment) (edgeBlock : Nat) :
    Nat → List Nat → Nat × List Nat × Bool
  | 0, offsets => (0, offsets, false)
  | r + 1, offsets =>
    let vid := seg.getEntry edgeBlock r
    if vid ≥ deleteFlag then
      scanBlock seg edgeBlock r (MarkerLog.push (vid - deleteFlag) offsets)
    else
      match offsets with
      | [] => (r + 1, [], true)
      | top :: rest =>
        if top ≠ r + seg.getPrevNumEntries edgeBlock then (r + 1, top :: rest, true)
        else scanBlock seg edgeBlock r rest

/-- One round of the loop of `find_next_valid_cursor`, and whether it is the last. -/
def findRound (it : EdgeIterator) : EdgeIterator × Bool :=
  let scanned := scanBlock it.segHeader it.edgeBlockHeader it.remaining it.deleteOffsets
  let it' := { it with remaining := scanned.1, deleteOffsets := scanned.2.1 }
  if scanned.2.2 then (it', true)
  else
    let prev := it.segHeader.getPrevPointer it.edgeBlockHeader
    if prev = 0 then (it', true)
    else
      ({ it' with
          edgeBlockHeader := prev
          remaining := it.segHeader.getNumEntries prev
          edgePropOffset := it.segHeader.getAllocatedEdgeNum prev }, false)

def findLoop : Nat → EdgeIterator → Except Fault EdgeIterator
  | 0, it => if it.findRound.2 then .ok it.findRound.1 else .error .endlessChain
  | fuel + 1, it => if it.findRound.2 then .ok it.findRound.1 else findLoop fuel it.findRound.1

/-- `find_next_valid_cursor` (`iterator.h:369-417`) -/
def findNextValidCursor (it : EdgeIterator) (fuel : Nat) : Except Fault EdgeIterator :=
  if it.edgeBlockHeader = 0 then .ok it else findLoop fuel it

/-- The constructor (`iterator.h:222-289`): `init`, then the first valid entry. -/
def create (segHeader : VegitoSegment) (edgeBlockHeader : Nat) (epochTable : EpochBlock)
    (numEntries edgePropSize readEpoch : Nat) : Except Fault EdgeIterator := do
  let it := { empty segHeader edgePropSize with edgeBlockHeader := edgeBlockHeader }
  let it ←
    match findReadEnd readEpoch none epochTable.entries with
    | .nothing => .ok (empty segHeader edgePropSize)
    | .whole => .ok { it with remaining := numEntries }
    | .upTo offset => do
      let block ← walkBack segHeader offset chainLimit edgeBlockHeader
      .ok { it with
        edgeBlockHeader := block
        remaining := offset - segHeader.getPrevNumEntries block }
  let it ← it.findNextValidCursor chainLimit
  .ok { it with edgePropOffset := segHeader.getAllocatedEdgeNum it.edgeBlockHeader }

def valid (it : EdgeIterator) : Bool := it.remaining != 0

/-- `EdgeIterator::next` (`iterator.h:299-302`) -/
def next (it : EdgeIterator) : Except Fault EdgeIterator :=
  { it with remaining := it.remaining - 1 }.findNextValidCursor chainLimit

/-- `EdgeIterator::neighbor` (`iterator.h:304-308`) -/
def neighbor (it : EdgeIterator) : Nat :=
  it.segHeader.getEntry it.edgeBlockHeader (it.remaining - 1)

/-- The bytes behind `get_data`, `get_data_is_valid` and `get_edge_property_offset` (`iterator.h:318-325`). -/
def edgeData (it : EdgeIterator) : Except Fault Bytes :=
  it.segHeader.getProperty (it.edgePropOffset + it.remaining - 1) it.edgePropSize

/-- `while (it.valid()) { visit; it.next(); }` -/
def toList : Nat → EdgeIterator → Except Fault (List (Nat × Bytes))
  | 0, it => if it.valid then .error .endlessChain else .ok []
  | fuel + 1, it =>
    if it.valid then do
      let data ← it.edgeData
      let it' ← it.next
      let rest ← toList fuel it'
      .ok ((it.neighbor, data) :: rest)
    else .ok []

end EdgeIterator

/-- `get_edges_in_seg_` for a located segment (`gart_fragment.h:1282-1327`). -/
def getEdgesInSeg (g : SegGraph) (segment segIdx edgePropSize readEpoch : Nat) :
    Except Fault EdgeIterator :=
  let seg := g.segments segment
  if segment = 0 then .ok (EdgeIterator.empty seg edgePropSize)
  else
    let epochTable := seg.epochTables segIdx
    let edgeBlock := seg.regionPtrs segIdx
    if epochTable = 0 ∨ edgeBlock = 0 then .ok (EdgeIterator.empty seg edgePropSize)
    else
      let numEntries := seg.getNumEntries edgeBlock
      if numEntries = 0 then .ok (EdgeIterator.empty seg edgePropSize)
      else
        EdgeIterator.create seg edgeBlock (g.epochBlocks epochTable) numEntries edgePropSize
          readEpoch

/-- `GetOutgoingAdjList` and `GetIncomingAdjList` of the vertex with index `v` in its segment graph
(`gart_fragment.h:1131-1161`). -/
def getAdjList (g : SegGraph) (v eLabel : Nat) (dir : Dir) (edgePropSize readEpoch : Nat) :
    Except Fault EdgeIterator :=
  getEdgesInSeg g (locateSegment g (v / vertexPerSeg) eLabel dir) (v % vertexPerSeg) edgePropSize
    readEpoch

/-- Everything the iterator yields, in order. A list is never longer than the
slots of its segment. -/
def readAdjList (g : SegGraph) (v eLabel : Nat) (dir : Dir) (edgePropSize readEpoch : Nat) :
    Except Fault (List (Nat × Bytes)) := do
  let it ← getAdjList g v eLabel dir edgePropSize readEpoch
  it.toList it.segHeader.blockSize

end Gart.Fragment
