import Mathlib.Logic.Function.Basic
import Gart.Lib.ByteMemory
import Gart.Lib.Outcome

/-!
# Blocks of the segmented graph (seggraph/blocks.hpp)

Edge-label blocks and epoch blocks are records. A segment has its header as a
record and everything behind the header as bytes: edge blocks are carved from
the low end, property slots of one edge each are addressed from the high end,
and only the arithmetic of `alloc` keeps the two apart. Addresses inside a
segment are relative to its first byte; pointers are block-manager offsets and
`0` is the null pointer.
-/

namespace Gart.Seggraph
open Gart.ByteMemory Gart.Outcome

/-- `dir_t`, without the unused `EOUTIN` (`blocks.hpp:35`). -/
inductive Dir
  | eout
  | ein
  deriving DecidableEq, Repr

instance decidableForallDir {P : Dir → Prop} [∀ d, Decidable (P d)] : Decidable (∀ d, P d) :=
  decidable_of_iff (P .eout ∧ P .ein)
    ⟨fun h d => by
      cases d
      · exact h.1
      · exact h.2, fun h => ⟨h .eout, h .ein⟩⟩

inductive Fault
  /-- a null block is dereferenced -/
  | nullBlock
  /-- a property slot reaches into the segment header or below the segment -/
  | outsideSegment
  /-- a chain of previous blocks longer than block orders allow -/
  | endlessChain
  deriving DecidableEq, Repr

/-- `VERTEX_PER_SEG` (`types.hpp:28`) -/
def vertexPerSeg : Nat := 4096

/-- `sizeof(VegitoSegmentHeader)`: 24 bytes and two pointer arrays. -/
def segmentHeaderSize : Nat := 24 + vertexPerSeg * 8 * 2

/-- `sizeof(VegitoEdgeBlockHeader)` -/
def edgeBlockHeaderSize : Nat := 24

/-- `sizeof(VegitoEdgeEntry)` -/
def edgeEntrySize : Nat := 8

def deleteFlag : Nat := 2 ^ 63

/-- Block orders are bytes, and a previous block has a smaller order. -/
def chainLimit : Nat := 256

/-- `size_to_order` (`utils.hpp:23-30`): one for a size that is no power of two, and one for each halving down to 1. -/
def sizeToOrder (size : Nat) : Nat :=
  (if size &&& (size - 1) ≠ 0 then 1 else 0) + Nat.log2 size

/-! ### Edge-label blocks -/

/-- `EdgeLabelEntry` (`blocks.hpp:201-221`) -/
structure EdgeLabelEntry where
  label : Nat
  pointerOut : Nat
  pointerIn : Nat
  deriving DecidableEq, Repr

/-- `EdgeLabelEntry::get_pointer` (`blocks.hpp:212`) -/
def EdgeLabelEntry.getPointer (entry : EdgeLabelEntry) : Dir → Nat
  | .eout => entry.pointerOut
  | .ein => entry.pointerIn

/-- `EdgeLabelEntry::set_pointer` (`blocks.hpp:214-216`) -/
def EdgeLabelEntry.setPointer (entry : EdgeLabelEntry) (pointer : Nat) : Dir → EdgeLabelEntry
  | .eout => { entry with pointerOut := pointer }
  | .ein => { entry with pointerIn := pointer }

/-- `EdgeLabelBlockHeader` with its entries, first appended first (`blocks.hpp:223-254`). -/
structure EdgeLabelBlock where
  order : Nat
  entries : List EdgeLabelEntry
  deriving DecidableEq, Repr

/-- `sizeof(EdgeLabelBlockHeader)` -/
def edgeLabelHeaderSize : Nat := 32

/-- `sizeof(EdgeLabelEntry)` -/
def edgeLabelEntrySize : Nat := 24

/-- `append` (`blocks.hpp:234-242`): `none` when the block is full. -/
def EdgeLabelBlock.append (block : EdgeLabelBlock) (entry : EdgeLabelEntry) :
    Option EdgeLabelBlock :=
  if edgeLabelHeaderSize + (block.entries.length + 1) * edgeLabelEntrySize > 2 ^ block.order then
    none
  else
    some { block with entries := block.entries ++ [entry] }

/-! ### Epoch blocks -/

/-- `VegitoEpochEntry` (`blocks.hpp:306-319`) -/
structure EpochEntry where
  epoch : Nat
  offset : Nat
  deriving DecidableEq, Repr

/-- `EpochBlockHeader` with its entries, newest first as they lie in memory (`blocks.hpp:563-630`). -/
structure EpochBlock where
  order : Nat
  entries : List EpochEntry
  latestEpoch : Nat
  deriving DecidableEq, Repr

/-- `sizeof(EpochBlockHeader)` -/
def epochHeaderSize : Nat := 32

/-- `sizeof(VegitoEpochEntry)` -/
def epochEntrySize : Nat := 16

/-- `EpochBlockHeader::has_space` (`blocks.hpp:593-599`) -/
def EpochBlock.hasSpace (block : EpochBlock) : Bool :=
  !decide (epochHeaderSize + (block.entries.length + 1) * epochEntrySize > 2 ^ block.order)

theorem EpochBlock.hasSpace_iff {block : EpochBlock} : block.hasSpace = true ↔
    epochHeaderSize + (block.entries.length + 1) * epochEntrySize ≤ 2 ^ block.order := by
  simp [EpochBlock.hasSpace]

/-- `append` (`blocks.hpp:601-612`): a full block stays as it is. -/
def EpochBlock.append (block : EpochBlock) (entry : EpochEntry) : EpochBlock :=
  if block.hasSpace then { block with entries := entry :: block.entries } else block

/-- `fill`, with the latest epoch set and no entry (`blocks.hpp:614-619`). -/
def EpochBlock.fill (order initEpoch : Nat) : EpochBlock :=
  { order := order, entries := [], latestEpoch := initEpoch }

/-! ### Segments -/

/-- `VegitoSegmentHeader` and the bytes of its block (`blocks.hpp:632-714`). -/
structure VegitoSegment where
  order : Nat
  segmentId : Nat
  head : Nat
  allocatedEdgeNum : Nat
  regionPtrs : Nat → Nat
  epochTables : Nat → Nat
  body : Memory

namespace VegitoSegment

def blockSize (seg : VegitoSegment) : Nat := 2 ^ seg.order

/-- `fill` resets the header (`blocks.hpp:652-665`); the bytes behind it keep what they held. -/
def fill (seg : VegitoSegment) (head order segid : Nat) : VegitoSegment :=
  { seg with
    order := order
    segmentId := segid
    head := head
    allocatedEdgeNum := 0
    regionPtrs := fun _ => 0
    epochTables := fun _ => 0 }

/-- `VegitoSegmentHeader::set_region_ptr` (`blocks.hpp:650`) -/
def setRegionPtr (seg : VegitoSegment) (idx pointer : Nat) : VegitoSegment :=
  { seg with regionPtrs := Function.update seg.regionPtrs idx pointer }

/-- `VegitoSegmentHeader::set_epoch_table` (`blocks.hpp:703-705`) -/
def setEpochTable (seg : VegitoSegment) (idx pointer : Nat) : VegitoSegment :=
  { seg with epochTables := Function.update seg.epochTables idx pointer }

/-- Slots an edge block of the given order takes: its header and its entries. -/
def requireEdgeNum (edgeNumOrder : Nat) : Nat :=
  edgeBlockHeaderSize / edgeEntrySize + 2 ^ edgeNumOrder

/-- `alloc` (`blocks.hpp:667-679`): the counter moves even when the block does not fit. -/
def alloc (seg : VegitoSegment) (edgeNumOrder edgePropSize : Nat) : Nat × VegitoSegment :=
  let ret := seg.allocatedEdgeNum
  let seg' := { seg with allocatedEdgeNum := ret + requireEdgeNum edgeNumOrder }
  if segmentHeaderSize + (ret + requireEdgeNum edgeNumOrder) * (edgeEntrySize + edgePropSize)
      > seg.blockSize then
    (0, seg')
  else
    (seg.head + segmentHeaderSize + ret * edgeEntrySize, seg')

/-- `VegitoSegmentHeader::get_allocated_edge_num` (`blocks.hpp:681-684`) -/
def getAllocatedEdgeNum (seg : VegitoSegment) (edgeBlock : Nat) : Nat :=
  (edgeBlock - (seg.head + segmentHeaderSize)) / edgeEntrySize

/-- Address of property slot `offset` when every slot is `edgePropSize` wide. -/
def propertyAddr (seg : VegitoSegment) (offset edgePropSize : Nat) : Except Fault Nat :=
  if segmentHeaderSize + (offset + 1) * edgePropSize ≤ seg.blockSize then
    .ok (seg.blockSize - (offset + 1) * edgePropSize)
  else
    .error .outsideSegment

/-- `VegitoSegmentHeader::get_property` (`blocks.hpp:686-691`) -/
def getProperty (seg : VegitoSegment) (offset edgePropSize : Nat) : Except Fault Bytes := do
  let addr ← seg.propertyAddr offset edgePropSize
  .ok (read seg.body addr edgePropSize)

/-- `VegitoSegmentHeader::append_property` (`blocks.hpp:693-699`) -/
def appendProperty (seg : VegitoSegment) (offset : Nat) (value : Bytes) :
    Except Fault VegitoSegment := do
  let addr ← seg.propertyAddr offset value.length
  .ok { seg with body := write seg.body addr value }

/-! ### Edge blocks inside a segment (`VegitoEdgeBlockHeader`) -/

def blockAddr (seg : VegitoSegment) (edgeBlock : Nat) : Nat := edgeBlock - seg.head

def getOrder (seg : VegitoSegment) (edgeBlock : Nat) : Nat :=
  load seg.body (seg.blockAddr edgeBlock) 1

def getNumEntries (seg : VegitoSegment) (edgeBlock : Nat) : Nat :=
  load seg.body (seg.blockAddr edgeBlock + 4) 4

def getPrevNumEntries (seg : VegitoSegment) (edgeBlock : Nat) : Nat :=
  load seg.body (seg.blockAddr edgeBlock + 8) 4

def getPrevPointer (seg : VegitoSegment) (edgeBlock : Nat) : Nat :=
  load seg.body (seg.blockAddr edgeBlock + 16) 8

def setNumEntries (seg : VegitoSegment) (edgeBlock num : Nat) : VegitoSegment :=
  { seg with body := store seg.body (seg.blockAddr edgeBlock + 4) 4 num }

/-- `get_entries() - i - 1` (`blocks.hpp:509-513`): entries grow downwards from the end of the block. -/
def entryAddr (seg : VegitoSegment) (edgeBlock i : Nat) : Nat :=
  seg.blockAddr edgeBlock + edgeBlockHeaderSize + 2 ^ seg.getOrder edgeBlock * edgeEntrySize
    - (i + 1) * edgeEntrySize

/-- `VegitoEdgeEntry` (`blocks.hpp:296-304`) -/
def getEntry (seg : VegitoSegment) (edgeBlock i : Nat) : Nat :=
  load seg.body (seg.entryAddr edgeBlock i) edgeEntrySize

/-- `has_space` (`blocks.hpp:521-527`); `num_entries + 1` is computed in `uint32_t`. -/
def hasSpace (seg : VegitoSegment) (edgeBlock : Nat) : Bool :=
  !decide (edgeBlockHeaderSize + (seg.getNumEntries edgeBlock + 1) % 2 ^ 32 * edgeEntrySize
    > edgeBlockHeaderSize + 2 ^ seg.getOrder edgeBlock * edgeEntrySize)

/-- `append` (`blocks.hpp:529-539`): the entry first, then the counter. -/
def appendEntry (seg : VegitoSegment) (edgeBlock dst : Nat) : VegitoSegment :=
  let num := seg.getNumEntries edgeBlock
  if seg.hasSpace edgeBlock then
    let seg' := { seg with body := store seg.body (seg.entryAddr edgeBlock num) edgeEntrySize dst }
    seg'.setNumEntries edgeBlock (num + 1)
  else
    seg

/-- `fill` (`blocks.hpp:550-555`): order, type (2 is `EDGE`), previous block and an empty count. -/
def fillBlock (seg : VegitoSegment) (edgeBlock order prevPointer prevNumEntries : Nat) :
    VegitoSegment :=
  let a := seg.blockAddr edgeBlock
  let m := store seg.body a 1 order
  let m := store m (a + 1) 1 2
  let m := store m (a + 16) 8 prevPointer
  let m := store m (a + 8) 4 prevNumEntries
  { seg with body := store m (a + 4) 4 0 }

end VegitoSegment

end Gart.Seggraph
