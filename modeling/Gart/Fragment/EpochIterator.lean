import Gart.Fragment.EpochReader

/-!
# Counting the edges of an iterator (seggraph/edge_iterator.hpp)

`size` counts with the iterator itself: it starts over from the block in which the iterator is, walks to the end
of the list, and puts `entries_cursor` back. The other pointers stay where the walk left them, so here the
iterator has its pointers and not the number of entries between them.
-/

namespace Gart.Fragment
open Gart.ByteMemory Gart.Outcome Gart.Seggraph Gart.Seggraph.SegGraph

/-- `EpochEdgeIterator` with its two entry pointers, as addresses from the start of the segment
(`edge_iterator.hpp:36-194`). Pointer arithmetic may leave the segment; null entry pointers are `0`. -/
structure PointerIterator where
  segHeader : VegitoSegment
  entries : Int
  entriesCursor : Int
  header : Nat
  epochHeader : Option EpochBlock
  numEntries : Nat
  edgePropOffset : Nat
  edgePropSize : Nat
  readEpoch : Nat

namespace PointerIterator

/-- `header->get_entries()` -/
def getEntries (it : PointerIterator) : Int :=
  it.segHeader.blockAddr it.header + edgeBlockHeaderSize + 2 ^ it.segHeader.getOrder it.header * edgeEntrySize

/-- `init` (`edge_iterator.hpp:68-102`), from the block in which the iterator is. -/
def init (it : PointerIterator) (epochHeader : EpochBlock) : Except Fault PointerIterator :=
  match EdgeIterator.findReadEnd it.readEpoch none epochHeader.entries with
  | .nothing => .ok { it with header := 0, entries := 0, entriesCursor := 0 }
  | .whole =>
    .ok { it with entries := it.getEntries, entriesCursor := it.getEntries - it.numEntries * edgeEntrySize }
  | .upTo readEndOffset => do
    let header ← EdgeIterator.walkBack it.segHeader readEndOffset chainLimit it.header
    let it := { it with header := header }
    let offset := readEndOffset - it.segHeader.getPrevNumEntries header
    return { it with entries := it.getEntries, entriesCursor := it.getEntries - offset * edgeEntrySize }

/-- The constructor. -/
def create (segHeader : VegitoSegment) (header : Nat) (epochHeader : Option EpochBlock)
    (numEntries edgePropSize readEpoch : Nat) : Except Fault PointerIterator :=
  let it : PointerIterator :=
    { segHeader := segHeader, entries := 0, entriesCursor := 0, header := header, epochHeader := epochHeader
      numEntries := numEntries, edgePropOffset := 0, edgePropSize := edgePropSize, readEpoch := readEpoch }
  match epochHeader with
  | none => .ok it
  | some table =>
    if header = 0 then .ok it
    else do
      let it ← it.init table
      return { it with edgePropOffset := segHeader.getAllocatedEdgeNum it.header }

/-- `switch_block` (`edge_iterator.hpp:104-118`) -/
def switchBlock (it : PointerIterator) : Bool × PointerIterator :=
  if it.header = 0 then (false, it)
  else
    let it := { it with header := it.segHeader.getPrevPointer it.header }
    if it.header = 0 then (false, it)
    else
      (true, { it with
        entries := it.getEntries
        entriesCursor := it.getEntries - it.segHeader.getNumEntries it.header * edgeEntrySize
        edgePropOffset := it.segHeader.getAllocatedEdgeNum it.header })

/-- `EpochEdgeIterator::valid` (`edge_iterator.hpp:120-125`) -/
def valid (it : PointerIterator) : Bool × PointerIterator :=
  if it.entriesCursor = it.entries then it.switchBlock else (true, it)

/-- `EpochEdgeIterator::next` (`edge_iterator.hpp:127`) -/
def next (it : PointerIterator) : PointerIterator := { it with entriesCursor := it.entriesCursor + edgeEntrySize }

/-- `entries_cursor->get_dst()` -/
def getDst (it : PointerIterator) : Except Fault Nat :=
  if segmentHeaderSize ≤ it.entriesCursor ∧ it.entriesCursor + edgeEntrySize ≤ it.segHeader.blockSize then
    .ok (load it.segHeader.body it.entriesCursor.toNat edgeEntrySize)
  else .error .outsideSegment

/-- The bytes behind `edge_data`. -/
def edgeData (it : PointerIterator) : Except Fault Bytes :=
  let slots : Int := it.edgePropOffset + (it.entries - it.entriesCursor) / edgeEntrySize
  let addr : Int := it.segHeader.blockSize - slots * it.edgePropSize
  if segmentHeaderSize ≤ addr ∧ addr + it.edgePropSize ≤ it.segHeader.blockSize then
    .ok (read it.segHeader.body addr.toNat it.edgePropSize)
  else .error .outsideSegment

/-- `while (it.valid()) { it.dst_id(); it.edge_data(); it.next(); }` -/
def toList : Nat → PointerIterator → Except Fault (List (Nat × Except Fault Bytes))
  | 0, it => if it.valid.1 then .error .endlessChain else .ok []
  | fuel + 1, it =>
    if it.valid.1 then do
      let dst ← it.valid.2.getDst
      let rest ← toList fuel it.valid.2.next
      return (dst, it.valid.2.edgeData) :: rest
    else .ok []

/-- The loop of `size`. -/
def countLoop : Nat → PointerIterator → Except Fault (Nat × PointerIterator)
  | 0, it => if it.valid.1 then .error .endlessChain else .ok (0, it.valid.2)
  | fuel + 1, it =>
    if it.valid.1 then do
      let (sz, it') ← countLoop fuel it.valid.2.next
      return (sz + 1, it')
    else .ok (0, it.valid.2)

/-- `size`, and the iterator behind the call (`edge_iterator.hpp:138-154`). -/
def size (it : PointerIterator) : Except Fault (Nat × PointerIterator) :=
  match it.epochHeader with
  | none => .ok (0, it)
  | some epochHeader =>
    if it.header = 0 then .ok (0, it)
    else do
      let started ← it.init epochHeader
      let (sz, it') ← countLoop it.segHeader.blockSize started
      return (sz, { it' with entriesCursor := it.entriesCursor })

/-- The states of an iterator between two calls. `next` follows a `valid` that did not move to another block. -/
inductive Reached (start : PointerIterator) : PointerIterator → Prop
  | start : Reached start start
  | valid {it : PointerIterator} (h : Reached start it) : Reached start it.valid.2
  | next {it : PointerIterator} (h : Reached start it) (hcursor : it.entriesCursor ≠ it.entries) :
    Reached start it.next

end PointerIterator

/-- `get_edges_in_seg` of `EpochGraphReader` (`epoch_graph_reader.cpp:55-79`), for a located segment. -/
def openEdges (g : SegGraph) (src label : Nat) (dir : Dir) (edgePropSize readEpoch : Nat) :
    Except Fault PointerIterator :=
  let segment := locateSegment g (src / vertexPerSeg) label dir
  let seg := g.segments segment
  if src ≥ g.vertexId ∨ segment = 0 then PointerIterator.create seg 0 none 0 0 readEpoch
  else
    let edgeBlock := seg.regionPtrs (src % vertexPerSeg)
    let epochTable := seg.epochTables (src % vertexPerSeg)
    if edgeBlock = 0 ∨ epochTable = 0 then PointerIterator.create seg 0 none 0 0 readEpoch
    else
      PointerIterator.create seg edgeBlock (some (g.epochBlocks epochTable)) (seg.getNumEntries edgeBlock) edgePropSize
        readEpoch

namespace PointerIterator

/-! ### The iterator by the entries ahead -/

def view (it : PointerIterator) : EpochEdgeIterator :=
  { segHeader := it.segHeader, header := it.header
    remaining := ((it.entries - it.entriesCursor) / edgeEntrySize).toNat
    edgePropSize := it.edgePropSize, edgePropOffset := it.edgePropOffset }

@[simp] theorem view_header (it : PointerIterator) : it.view.header = it.header := rfl
@[simp] theorem view_segHeader (it : PointerIterator) : it.view.segHeader = it.segHeader := rfl

theorem view_remaining {it : PointerIterator} {r : Nat} (h : it.entriesCursor = it.entries - r * edgeEntrySize) :
    it.view.remaining = r := by
  show ((it.entries - it.entriesCursor) / edgeEntrySize).toNat = r
  rw [h]
  simp only [edgeEntrySize]
  omega

/-- The two pointers belong to the block of the iterator, the cursor in front of its last entry or at the end. -/
structure Aligned (it : PointerIterator) : Prop where
  entries : it.entries = it.getEntries
  cursor : it.entriesCursor = it.entries - it.view.remaining * edgeEntrySize

theorem switchBlock_view (it : PointerIterator) :
    it.switchBlock.1 = it.view.switchBlock.1 ∧ it.switchBlock.2.view = it.view.switchBlock.2 := by
  unfold switchBlock EpochEdgeIterator.switchBlock
  rw [it.view_header]
  by_cases hheader : it.header = 0
  · rw [if_pos hheader, if_pos hheader]
    exact ⟨rfl, rfl⟩
  · rw [if_neg hheader, if_neg hheader]
    dsimp only [view_segHeader]
    by_cases hprev : it.segHeader.getPrevPointer it.header = 0
    · rw [if_pos hprev, if_pos hprev, hprev]
      exact ⟨rfl, rfl⟩
    · rw [if_neg hprev, if_neg hprev]
      refine ⟨rfl, ?_⟩
      exact congrArg (fun remaining => ({ it.view with
        header := it.segHeader.getPrevPointer it.header
        remaining := remaining
        edgePropOffset := it.segHeader.getAllocatedEdgeNum (it.segHeader.getPrevPointer it.header) } :
          EpochEdgeIterator)) (view_remaining rfl)

theorem switchBlock_aligned {it : PointerIterator} (h : it.switchBlock.1 = true) : Aligned it.switchBlock.2 := by
  unfold switchBlock at h ⊢
  dsimp only at h ⊢
  split at h
  · exact absurd h (by simp)
  · rename_i hheader
    split at h
    · exact absurd h (by simp)
    · rename_i hprev
      rw [if_neg hheader, if_neg hprev]
      refine ⟨rfl, ?_⟩
      rw [view_remaining rfl]

theorem Aligned.cursor_eq_iff {it : PointerIterator} (h : Aligned it) :
    it.entriesCursor = it.entries ↔ it.view.remaining = 0 := by
  have hcursor := h.cursor
  simp only [edgeEntrySize] at hcursor
  omega

theorem Aligned.valid_view {it : PointerIterator} (h : Aligned it) :
    it.valid.1 = it.view.valid.1 ∧ it.valid.2.view = it.view.valid.2 := by
  unfold valid EpochEdgeIterator.valid
  by_cases hrem : it.view.remaining = 0
  · rw [if_pos hrem, if_pos (h.cursor_eq_iff.mpr hrem)]
    exact it.switchBlock_view
  · rw [if_neg hrem, if_neg fun heq => hrem (h.cursor_eq_iff.mp heq)]
    exact ⟨rfl, rfl⟩

theorem Aligned.valid {it : PointerIterator} (h : Aligned it) (hvalid : it.valid.1 = true) : Aligned it.valid.2 := by
  unfold PointerIterator.valid at hvalid ⊢
  split
  · rename_i hend
    rw [if_pos hend] at hvalid
    exact switchBlock_aligned hvalid
  · exact h

theorem Aligned.next {it : PointerIterator} (h : Aligned it) (hrem : it.view.remaining ≠ 0) :
    it.next.view = it.view.next ∧ Aligned it.next := by
  have hcursor := h.cursor
  have hnext : it.next.entriesCursor = it.next.entries - (it.view.remaining - 1 : Nat) * edgeEntrySize := by
    show it.entriesCursor + edgeEntrySize = it.entries - _
    simp only [edgeEntrySize] at hcursor ⊢
    omega
  have hview := view_remaining hnext
  refine ⟨?_, h.entries, ?_⟩
  · exact congrArg (fun remaining => ({ it.view with remaining := remaining } : EpochEdgeIterator)) hview
  · rw [hview]
    exact hnext

theorem Aligned.edgeData {it : PointerIterator} (h : Aligned it) (hrem : it.view.remaining ≠ 0) :
    it.edgeData = it.view.edgeData := by
  have hslots : (it.entries - it.entriesCursor) / edgeEntrySize = (it.view.remaining : Nat) := by
    have hcursor := h.cursor
    simp only [edgeEntrySize] at hcursor ⊢
    omega
  have hview : it.view.edgeData =
      it.segHeader.getProperty (it.edgePropOffset + it.view.remaining - 1) it.edgePropSize := rfl
  obtain ⟨slots, hsum⟩ : ∃ slots, it.edgePropOffset + it.view.remaining = slots + 1 :=
    ⟨it.edgePropOffset + it.view.remaining - 1, by omega⟩
  have hsize : (slots + 1) * it.edgePropSize = slots * it.edgePropSize + it.edgePropSize := Nat.succ_mul _ _
  have hint : ((it.edgePropOffset : Int) + it.view.remaining) * it.edgePropSize =
      ((slots + 1) * it.edgePropSize : Nat) := by
    rw [← hsum]
    norm_cast
  rw [hview, hsum, Nat.add_sub_cancel]
  unfold PointerIterator.edgeData VegitoSegment.getProperty VegitoSegment.propertyAddr
  dsimp only
  rw [hslots, hint]
  by_cases hin : segmentHeaderSize + (slots + 1) * it.edgePropSize ≤ it.segHeader.blockSize
  · rw [if_pos hin, if_pos (by omega)]
    have haddr : ((it.segHeader.blockSize : Int) - ((slots + 1) * it.edgePropSize : Nat)).toNat =
        it.segHeader.blockSize - (slots + 1) * it.edgePropSize := by
      omega
    rw [haddr]
    rfl
  · rw [if_neg hin, if_neg (by omega)]
    rfl

/-! ### A state in front of some edges -/

def blockEntries (b : Block) : Int := b.addr + 24 + 2 ^ b.order * 8

section walk
variable {tracked : Prop} {stride : Nat} {seg : VegitoSegment} {edges : List Edge}
  {it : PointerIterator} {b : Block} {rest : List Block} {k : Nat}

theorem getEntries_pointer {prevNum prevPtr : Nat} (hseg : it.segHeader = seg)
    (hheader : it.header = b.pointer seg.head)
    (hwords : BlockWords seg b prevNum prevPtr) : it.getEntries = blockEntries b := by
  unfold getEntries blockEntries
  rw [hseg, hheader, seg.blockAddr_pointer, hwords.getOrder]
  rfl

/-- The iterator stands on block `b` in front of the blocks `rest`, and `k` edges are ahead. -/
structure Standing (tracked : Prop) (stride : Nat) (seg : VegitoSegment) (edges : List Edge)
    (it : PointerIterator) (b : Block) (rest : List Block) (k : Nat) : Prop where
  ahead : Ahead tracked stride seg edges it.view b rest k
  aligned : Aligned it

theorem Standing.entries (h : Standing tracked stride seg edges it b rest k) : it.entries = blockEntries b :=
  h.aligned.entries.trans (getEntries_pointer h.ahead.segHeader h.ahead.header h.ahead.chain.1)

theorem Standing.valid (h : Standing tracked stride seg edges it b rest k) :
    (k = 0 → it.valid.1 = false) ∧
      (0 < k → it.valid.1 = true ∧ it.valid.2.view.remaining ≠ 0 ∧
        ∃ b' rest', Standing tracked stride seg edges it.valid.2 b' rest' k) := by
  obtain ⟨hsame, hview⟩ := h.aligned.valid_view
  obtain ⟨hend, hmore⟩ := h.ahead.valid
  rw [hsame]
  refine ⟨hend, fun hpos => ?_⟩
  obtain ⟨hvalid, -, hrem, b', rest', hahead⟩ := hmore hpos
  rw [← hview] at hrem hahead
  exact ⟨hvalid, hrem, b', rest', hahead, h.aligned.valid (hsame.trans hvalid)⟩

theorem Standing.next (h : Standing tracked stride seg edges it b rest (k + 1)) (hrem : it.view.remaining ≠ 0) :
    Standing tracked stride seg edges it.next b rest k := by
  obtain ⟨hview, haligned⟩ := h.aligned.next hrem
  refine ⟨?_, haligned⟩
  rw [hview]
  exact h.ahead.next hrem

theorem Standing.getDst (h : Standing tracked stride seg edges it b rest k) (hrem : it.view.remaining ≠ 0) :
    it.getDst = .ok it.view.dstId.1 := by
  obtain ⟨total, hfits, hstop⟩ := (h.ahead.readable b List.mem_cons_self).fits
  have hcursor := h.aligned.cursor
  have hentries := h.entries
  have hle := h.ahead.remaining
  have hroom := h.ahead.chain.1.room
  have hpow : (2 : Int) ^ b.order = (2 ^ b.order : Nat) := by norm_cast
  have hbytes : segmentHeaderSize + 8 * total ≤ 2 ^ seg.order := by
    unfold Fits at hfits
    omega
  unfold Block.stop at hstop
  unfold blockEntries Block.addr at hentries
  rw [hpow] at hentries
  have haddr : it.entriesCursor = (b.entryAddr (it.view.remaining - 1) : Nat) := by
    unfold Block.entryAddr Block.addr
    simp only [edgeEntrySize] at hcursor
    omega
  have hinside : segmentHeaderSize ≤ it.entriesCursor ∧
      it.entriesCursor + edgeEntrySize ≤ it.segHeader.blockSize := by
    have hsize : it.segHeader.blockSize = 2 ^ seg.order := by rw [← h.ahead.segHeader]; rfl
    simp only [edgeEntrySize] at hcursor ⊢
    omega
  have hdst : it.view.dstId.1 = it.segHeader.getEntry it.header (it.view.remaining - 1) := by
    unfold EpochEdgeIterator.dstId
    rw [valid_of_remaining hrem]
    rfl
  unfold PointerIterator.getDst
  rw [if_pos hinside, hdst, haddr]
  show _ = Except.ok (it.view.segHeader.getEntry it.view.header _)
  rw [h.ahead.segHeader, h.ahead.header]
  unfold VegitoSegment.getEntry
  rw [h.ahead.chain.1.entryAddr, ← view_segHeader, h.ahead.segHeader]
  rfl

theorem Standing.toList_view {fuel : Nat} (h : Standing tracked stride seg edges it b rest k) :
    it.toList fuel = it.view.toList fuel := by
  induction fuel generalizing it b rest k with
  | zero =>
    unfold toList EpochEdgeIterator.toList
    rw [h.aligned.valid_view.1]
  | succ fuel ih =>
    obtain ⟨hsame, hview⟩ := h.aligned.valid_view
    unfold toList EpochEdgeIterator.toList
    rw [← hsame]
    cases k with
    | zero =>
      rw [if_neg (by rw [h.valid.1 rfl]; simp), if_neg (by rw [h.valid.1 rfl]; simp)]
    | succ k =>
      obtain ⟨hvalid, hrem, b', rest', hat⟩ := h.valid.2 (Nat.succ_pos k)
      have hdst : it.view.valid.2.dstId = (it.valid.2.view.dstId.1, it.valid.2.view) := by
        rw [← hview]
        unfold EpochEdgeIterator.dstId
        rw [valid_of_remaining hrem]
        rfl
      rw [if_pos hvalid, if_pos hvalid, hat.getDst hrem, hdst, hat.aligned.edgeData hrem]
      dsimp only
      rw [← (hat.aligned.next hrem).1, ← ih (hat.next hrem)]
      rfl

/-! ### Behind the oldest block -/

theorem toList_oldest (hheader : it.header ≠ 0) (hprev : it.segHeader.getPrevPointer it.header = 0) (fuel : Nat) :
    ({ it with header := 0 } : PointerIterator).toList fuel = it.toList fuel := by
  have hvalid : ∀ it : PointerIterator, it.header ≠ 0 → it.segHeader.getPrevPointer it.header = 0 →
      it.valid = if it.entriesCursor = it.entries then (false, { it with header := 0 }) else (true, it) := by
    intro it hheader hprev
    unfold valid switchBlock
    rw [if_neg hheader, hprev]
    rfl
  have hnull : ∀ it : PointerIterator, ({ it with header := 0 } : PointerIterator).valid =
      if it.entriesCursor = it.entries then (false, { it with header := 0 }) else (true, { it with header := 0 }) :=
    fun _ => rfl
  induction fuel generalizing it with
  | zero =>
    unfold toList
    rw [hvalid it hheader hprev, hnull]
    split <;> rfl
  | succ fuel ih =>
    unfold toList
    rw [hvalid it hheader hprev, hnull]
    split
    · rfl
    · have hnext := @ih it.next hheader hprev
      dsimp only
      rw [if_pos rfl, if_pos rfl, ← hnext]
      rfl

theorem toList_behind (h : it.entries < it.entriesCursor) (fuel : Nat) {values : List (Nat × Except Fault Bytes)} :
    it.toList fuel ≠ .ok values := by
  have hvalid : ∀ it : PointerIterator, it.entries < it.entriesCursor → it.valid = (true, it) :=
    fun it hlt => if_neg (by omega)
  induction fuel generalizing it values with
  | zero =>
    unfold toList
    rw [hvalid it h]
    simp
  | succ fuel ih =>
    unfold toList
    rw [hvalid it h, if_pos rfl]
    intro heq
    obtain ⟨dst, -, heq⟩ := bind_eq_ok heq
    obtain ⟨rest, hrest, -⟩ := bind_eq_ok heq
    refine @ih it.next ?_ rest hrest
    show it.entries < it.entriesCursor + edgeEntrySize
    omega

/-! ### The loop of size -/

theorem valid_oldest (hseg : it.segHeader = seg) (hheader : it.header = b.pointer seg.head)
    (hchain : ChainOk tracked stride seg [b]) (hend : it.entriesCursor = it.entries) :
    it.valid = (false, { it with header := 0 }) := by
  unfold valid switchBlock
  rw [if_pos hend, if_neg (by rw [hheader]; exact Block.pointer_ne_zero _ _), hseg, hheader, hchain.1.getPrevPointer]
  rfl

theorem valid_older {c : Block} (hseg : it.segHeader = seg) (hheader : it.header = b.pointer seg.head)
    (hchain : ChainOk tracked stride seg (b :: c :: rest)) (hend : it.entriesCursor = it.entries) :
    it.valid.1 = true ∧ it.valid.2.segHeader = seg ∧ it.valid.2.header = c.pointer seg.head ∧
      it.valid.2.entries = blockEntries c ∧
      it.valid.2.entriesCursor = it.valid.2.entries - c.edges.length * edgeEntrySize := by
  have hprev : it.segHeader.getPrevPointer it.header = c.pointer seg.head := by
    rw [hseg, hheader, hchain.1.getPrevPointer]
    rfl
  have hswitch : it.valid = (true, { it with
      header := c.pointer seg.head
      entries := ({ it with header := c.pointer seg.head } : PointerIterator).getEntries
      entriesCursor := ({ it with header := c.pointer seg.head } : PointerIterator).getEntries -
        it.segHeader.getNumEntries (c.pointer seg.head) * edgeEntrySize
      edgePropOffset := it.segHeader.getAllocatedEdgeNum (c.pointer seg.head) }) := by
    unfold valid switchBlock
    rw [if_pos hend, if_neg (by rw [hheader]; exact Block.pointer_ne_zero _ _), hprev]
    dsimp only
    rw [if_neg (Block.pointer_ne_zero _ _)]
  have hentries := @getEntries_pointer seg { it with header := c.pointer seg.head } c _ _ hseg rfl hchain.2.2.2.2.1
  rw [hswitch, hentries, hseg, hchain.2.2.2.2.1.getNumEntries]
  exact ⟨rfl, rfl, rfl, rfl, rfl⟩

/-- From `r` entries in front of the end of block `b` the loop counts them and the edges of the older blocks. Its
iterator ends in the oldest block, without a header. -/
theorem countLoop_spec {fuel r : Nat} (hseg : it.segHeader = seg) (hheader : it.header = b.pointer seg.head)
    (hchain : ChainOk tracked stride seg (b :: rest)) (hfilled : ∀ c ∈ rest, c.edges ≠ [])
    (hcursor : it.entriesCursor = it.entries - r * edgeEntrySize) (hfuel : r + (chainEdges rest).length ≤ fuel) :
    ∃ it', countLoop fuel it = .ok (r + (chainEdges rest).length, it') ∧
      (rest = [] → it' = { it with entriesCursor := it.entries, header := 0 }) ∧
      (rest ≠ [] → it'.header = 0 ∧ it'.entries ≤ b.addr) := by
  induction fuel generalizing it b rest r with
  | zero =>
    have hr : r = 0 := by omega
    have hend : it.entriesCursor = it.entries := by
      rw [hcursor, hr]
      simp
    cases rest with
    | nil =>
      have hvalid := valid_oldest hseg hheader hchain hend
      refine ⟨_, ?_, fun _ => rfl, fun hne => absurd rfl hne⟩
      unfold countLoop
      rw [hvalid, ← hend, hr]
      rfl
    | cons c older =>
      have hpos := length_pos_of_filled hfilled
      simp only [chainEdges, List.length_append] at hfuel
      omega
  | succ fuel ih =>
    unfold countLoop
    cases r with
    | zero =>
      have hend : it.entriesCursor = it.entries := by
        rw [hcursor]
        simp
      cases rest with
      | nil =>
        refine ⟨_, ?_, fun _ => rfl, fun hne => absurd rfl hne⟩
        rw [valid_oldest hseg hheader hchain hend, ← hend]
        rfl
      | cons c older =>
        obtain ⟨hvalid, hseg', hheader', hentries', hcursor'⟩ := valid_older hseg hheader hchain hend
        have hpos := length_pos_of_filled hfilled
        have hlen : (chainEdges (c :: older)).length = (c.edges.length - 1) + (chainEdges older).length + 1 := by
          simp only [chainEdges, List.length_append]
          omega
        obtain ⟨it', hcount, hoff, hbelow⟩ := @ih it.valid.2.next c older (c.edges.length - 1) hseg' hheader'
          hchain.2.2.2.2 (fun d hd => hfilled d (List.mem_cons_of_mem _ hd)) (by
            show it.valid.2.entriesCursor + edgeEntrySize = it.valid.2.entries - _
            simp only [edgeEntrySize] at hcursor' ⊢
            omega) (by omega)
        rw [if_pos hvalid, hcount, hlen, Nat.zero_add]
        refine ⟨it', rfl, by simp, fun _ => ?_⟩
        have hstop := (hchain.2.2.1 c List.mem_cons_self).1
        have hpow : (2 : Int) ^ c.order = (2 ^ c.order : Nat) := by norm_cast
        have horder := Nat.two_pow_pos c.order
        unfold Block.stop at hstop
        by_cases hnil : older = []
        · rw [hoff hnil]
          refine ⟨rfl, ?_⟩
          show it.valid.2.entries ≤ b.addr
          rw [hentries']
          unfold blockEntries Block.addr
          omega
        · obtain ⟨hnull, hle⟩ := hbelow hnil
          refine ⟨hnull, hle.trans ?_⟩
          unfold Block.addr
          omega
    | succ r =>
      have hvalid : it.valid = (true, it) := if_neg (by
        simp only [edgeEntrySize] at hcursor
        omega)
      obtain ⟨it', hcount, hoff, hbelow⟩ := @ih it.next b rest r hseg hheader hchain hfilled (by
        show it.entriesCursor + edgeEntrySize = it.entries - _
        simp only [edgeEntrySize] at hcursor ⊢
        omega) (by omega)
      rw [hvalid, if_pos rfl, hcount, Nat.succ_add]
      exact ⟨it', rfl, hoff, hbelow⟩

/-! ### The calls of a user -/

/-- What the constructor sets and no call changes. -/
structure Made (seg : VegitoSegment) (table : Option EpochBlock) (numEntries readEpoch : Nat) (it : PointerIterator) :
    Prop where
  segHeader : it.segHeader = seg
  epochHeader : it.epochHeader = table
  numEntries : it.numEntries = numEntries
  readEpoch : it.readEpoch = readEpoch

/-- The states between two calls: at the end without a header, or in front of some of the `count` visible edges. -/
def Live (tracked : Prop) (stride : Nat) (seg : VegitoSegment) (edges : List Edge) (count : Nat)
    (it : PointerIterator) : Prop :=
  (it.header = 0 ∧ it.entriesCursor = it.entries) ∨
    ∃ b rest k, Standing tracked stride seg edges it b rest k ∧ (chainEdges rest).length < count ∧ k ≤ count

section calls
variable {table : Option EpochBlock} {numEntries readEpoch count : Nat} {start : PointerIterator}

theorem Made.valid (h : Made seg table numEntries readEpoch it) : Made seg table numEntries readEpoch it.valid.2 := by
  unfold PointerIterator.valid switchBlock
  dsimp only
  split
  · split
    · exact h
    · split
      · exact ⟨h.segHeader, h.epochHeader, h.numEntries, h.readEpoch⟩
      · exact ⟨h.segHeader, h.epochHeader, h.numEntries, h.readEpoch⟩
  · exact h

theorem Made.next (h : Made seg table numEntries readEpoch it) : Made seg table numEntries readEpoch it.next :=
  ⟨h.segHeader, h.epochHeader, h.numEntries, h.readEpoch⟩

theorem Standing.oldest (h : Standing tracked stride seg edges it b rest 0) :
    rest = [] ∧ it.entriesCursor = it.entries := by
  have hposition := h.ahead.position
  refine ⟨?_, h.aligned.cursor_eq_iff.mpr (by omega)⟩
  cases hrest : rest with
  | nil => rfl
  | cons c older =>
    have hfilled := h.ahead.filled
    rw [hrest] at hfilled hposition
    have hpos := length_pos_of_filled hfilled
    simp only [chainEdges, List.length_append] at hposition
    omega

theorem Live.valid (h : Live tracked stride seg edges count it) : Live tracked stride seg edges count it.valid.2 := by
  rcases h with ⟨hheader, hcursor⟩ | ⟨b, rest, k, hat, hrest, hk⟩
  · have hvalid : it.valid = (false, it) := by
      unfold PointerIterator.valid switchBlock
      rw [if_pos hcursor, if_pos hheader]
    rw [hvalid]
    exact Or.inl ⟨hheader, hcursor⟩
  · cases k with
    | zero =>
      obtain ⟨rfl, hcursor⟩ := hat.oldest
      rw [valid_oldest hat.ahead.segHeader hat.ahead.header hat.ahead.chain hcursor]
      exact Or.inl ⟨rfl, hcursor⟩
    | succ k =>
      obtain ⟨-, hrem, b', rest', hat'⟩ := hat.valid.2 (Nat.succ_pos k)
      have hposition := hat'.ahead.position
      exact Or.inr ⟨b', rest', k + 1, hat', by omega, hk⟩

theorem Live.next (h : Live tracked stride seg edges count it) (hcursor : it.entriesCursor ≠ it.entries) :
    Live tracked stride seg edges count it.next := by
  rcases h with ⟨-, hend⟩ | ⟨b, rest, k, hat, hrest, hk⟩
  · exact absurd hend hcursor
  · have hrem : it.view.remaining ≠ 0 := fun hzero => hcursor (hat.aligned.cursor_eq_iff.mpr hzero)
    have hposition := hat.ahead.position
    obtain ⟨k, rfl⟩ : ∃ j, k = j + 1 := ⟨k - 1, by omega⟩
    exact Or.inr ⟨b, rest, k, hat.next hrem, hrest, Nat.le_of_succ_le hk⟩

theorem Reached.made (h : Reached start it) (hstart : Made seg table numEntries readEpoch start) :
    Made seg table numEntries readEpoch it := by
  induction h with
  | start => exact hstart
  | valid _ ih => exact ih.valid
  | next _ _ ih => exact ih.next

theorem Reached.live (h : Reached start it) (hstart : Live tracked stride seg edges count start) :
    Live tracked stride seg edges count it := by
  induction h with
  | start => exact hstart
  | valid _ ih => exact ih.valid
  | next _ hcursor ih => exact ih.next hcursor

end calls

/-! ### What a call of size does -/

def readsWhole (it : PointerIterator) : Prop :=
  ∃ table, it.epochHeader = some table ∧ EdgeIterator.findReadEnd it.readEpoch none table.entries = .whole

/-- `size` returns `count`, and the iterator yields afterwards what it would have yielded without the call. -/
def CountsQuietly (it : PointerIterator) (count : Nat) : Prop :=
  ∃ it', it.size = .ok (count, it') ∧ ∀ fuel, it'.toList fuel = it.toList fuel

/-- The iterator is in the oldest block, and no newer block is visible as a whole: there is none, or the newest
epoch of the list is not visible. -/
def InOldest (newest : Nat) (it : PointerIterator) : Prop :=
  it.header ≠ 0 ∧ it.segHeader.getPrevPointer it.header = 0 ∧
    (it.segHeader.getPrevPointer newest = 0 ∨ ¬ it.readsWhole)

section list
variable {b0 : Block} {rest0 : List Block} {log : List LogEntry} {table : EpochBlock} {readEpoch : Nat}

/-- `init` from a block behind the newest one: with the whole list visible it takes the number of entries of the
newest block for this one. -/
theorem Standing.init (h : Standing tracked stride seg edges it b rest k)
    (hmade : Made seg (some table) b0.edges.length readEpoch it) (hchain : ChainOk tracked stride seg (b0 :: rest0))
    (hedges : chainEdges (b0 :: rest0) = log.map LogEntry.edge) (htable : EpochOk table log)
    (hrest : (chainEdges rest).length < (upToEpoch readEpoch log).length) :
    ∃ r : Nat, it.init table = .ok { it with entriesCursor := it.entries - r * edgeEntrySize } ∧
      (it.readsWhole → r = b0.edges.length ∧
        (upToEpoch readEpoch log).length = (chainEdges rest0).length + b0.edges.length) ∧
      (¬ it.readsWhole → r + (chainEdges rest).length = (upToEpoch readEpoch log).length) := by
  have hend := readEnd_spec hchain hedges htable readEpoch
  have hwhole : it.readsWhole ↔ EdgeIterator.findReadEnd readEpoch none table.entries = .whole := by
    unfold readsWhole
    rw [hmade.epochHeader, hmade.readEpoch]
    simp
  have hheader : it.header = b.pointer seg.head := h.ahead.header
  rw [hwhole]
  unfold PointerIterator.init
  rw [hmade.readEpoch]
  cases hcase : EdgeIterator.findReadEnd readEpoch none table.entries with
  | nothing =>
    rw [hcase] at hend
    have hend : (upToEpoch readEpoch log).length = 0 := hend
    omega
  | whole =>
    rw [hcase] at hend
    refine ⟨b0.edges.length, ?_, fun _ => ⟨rfl, hend⟩, fun hne => absurd rfl hne⟩
    dsimp only
    rw [← h.aligned.entries, hmade.numEntries]
  | upTo offset =>
    rw [hcase] at hend
    have hoff : (upToEpoch readEpoch log).length = offset := hend.1
    have hprev : seg.getPrevNumEntries it.header = (chainEdges rest).length := by
      rw [hheader, h.ahead.chain.1.getPrevNumEntries]
    have hwalk : EdgeIterator.walkBack it.segHeader offset chainLimit it.header = .ok it.header := by
      unfold chainLimit EdgeIterator.walkBack
      rw [hmade.segHeader, hprev, if_neg (by rw [hheader]; exact Block.pointer_ne_zero _ _), if_neg (by omega)]
    refine ⟨offset - (chainEdges rest).length, ?_, fun heq => by simp at heq, fun _ => by omega⟩
    dsimp only
    rw [hwalk, ← hprev, ← hmade.segHeader]
    rw [h.aligned.entries, ← hmade.readEpoch]
    rfl

/-- `size` in front of some edges. Only in the oldest block it leaves the iterator where it was. -/
theorem Standing.size (h : Standing tracked stride seg edges it b rest k)
    (hmade : Made seg (some table) b0.edges.length readEpoch it) (hchain : ChainOk tracked stride seg (b0 :: rest0))
    (hedges : chainEdges (b0 :: rest0) = log.map LogEntry.edge) (htable : EpochOk table log)
    (hrest : (chainEdges rest).length < (upToEpoch readEpoch log).length)
    (hfuel : 2 * log.length ≤ seg.blockSize) :
    ∃ n it', it.size = .ok (n, it') ∧ (rest = [] → it' = { it with header := 0 }) ∧
      (rest ≠ [] → it'.entries < it'.entriesCursor) ∧
      (it.readsWhole → n = b0.edges.length + (chainEdges rest).length ∧
        (upToEpoch readEpoch log).length = (chainEdges rest0).length + b0.edges.length) ∧
      (¬ it.readsWhole → n = (upToEpoch readEpoch log).length) := by
  obtain ⟨r, hinit, hwhole, hpart⟩ := h.init hmade hchain hedges htable hrest
  have hheader : it.header = b.pointer seg.head := h.ahead.header
  have hcount : (upToEpoch readEpoch log).length ≤ log.length := List.length_filter_le _ _
  have hlen := congrArg List.length hedges
  simp only [chainEdges, List.length_append, List.length_map] at hlen
  have hr : r + (chainEdges rest).length ≤ 2 * log.length := by
    by_cases hreads : it.readsWhole
    · have hb := (hwhole hreads).1
      omega
    · have hsum := hpart hreads
      omega
  obtain ⟨it', hloop, hlast, holder⟩ := @countLoop_spec tracked stride seg
    { it with entriesCursor := it.entries - r * edgeEntrySize } b rest seg.blockSize r hmade.segHeader hheader
    h.ahead.chain h.ahead.filled rfl (by omega)
  refine ⟨r + (chainEdges rest).length, { it' with entriesCursor := it.entriesCursor }, ?_, ?_, ?_, ?_, hpart⟩
  · unfold PointerIterator.size
    rw [hmade.epochHeader]
    dsimp only
    have hblock : it.segHeader.blockSize = seg.blockSize := by rw [hmade.segHeader]
    rw [if_neg (by rw [hheader]; exact Block.pointer_ne_zero _ _), hinit, hblock]
    show (countLoop seg.blockSize { it with entriesCursor := it.entries - r * edgeEntrySize } >>= _) = _
    rw [hloop]
    rfl
  · intro hnil
    rw [hlast hnil]
  · intro hne
    have hbelow := (holder hne).2
    have hentries := h.entries
    have hcursor := h.aligned.cursor
    have hle := h.ahead.remaining
    have hroom := h.ahead.chain.1.room
    have hpow : (2 : Int) ^ b.order = (2 ^ b.order : Nat) := by norm_cast
    show it'.entries < it.entriesCursor
    unfold blockEntries at hentries
    simp only [edgeEntrySize] at hcursor
    omega
  · intro hreads
    obtain ⟨hb, hall⟩ := hwhole hreads
    exact ⟨by omega, hall⟩

theorem countsQuietly_iff (hlive : Live tracked stride seg (log.map LogEntry.edge) (upToEpoch readEpoch log).length it)
    (hmade : Made seg (some table) b0.edges.length readEpoch it) (hchain : ChainOk tracked stride seg (b0 :: rest0))
    (hedges : chainEdges (b0 :: rest0) = log.map LogEntry.edge) (htable : EpochOk table log)
    (hfilled : ∀ c ∈ rest0, c.edges ≠ []) (htracked : tracked) (hfuel : 2 * log.length ≤ seg.blockSize) :
    CountsQuietly it (upToEpoch readEpoch log).length ↔
      upToEpoch readEpoch log = [] ∨ InOldest (b0.pointer seg.head) it := by
  have hnewest : it.segHeader.getPrevPointer (b0.pointer seg.head) = 0 ↔ (chainEdges rest0).length = 0 := by
    rw [hmade.segHeader, hchain.1.getPrevPointer, chainPtr_eq_zero]
    cases rest0 with
    | nil => simp [chainEdges]
    | cons c older =>
      have hpos := length_pos_of_filled hfilled
      simp only [chainEdges, List.length_append, reduceCtorEq, false_iff]
      omega
  rcases hlive with ⟨hheader, hcursor⟩ | ⟨b, rest, k, hat, hrest, hk⟩
  · have hsize : it.size = .ok (0, it) := by
      unfold PointerIterator.size
      rw [hmade.epochHeader]
      exact if_pos hheader
    constructor
    · rintro ⟨it', heq, -⟩
      rw [hsize] at heq
      exact Or.inl (List.length_eq_zero_iff.mp (Prod.mk.inj (Except.ok.inj heq)).1.symm)
    · rintro (hnone | hin)
      · rw [hnone]
        exact ⟨it, hsize, fun _ => rfl⟩
      · exact absurd hheader hin.1
  · obtain ⟨n, it', hsize, hlast, holder, hwhole, hpart⟩ :=
      hat.size hmade hchain hedges htable hrest hfuel
    have hheader : it.header = b.pointer seg.head := hat.ahead.header
    have hheader0 : it.header ≠ 0 := by
      rw [hheader]
      exact Block.pointer_ne_zero _ _
    have hprev : it.segHeader.getPrevPointer it.header = 0 ↔ rest = [] := by
      rw [hmade.segHeader, hheader, hat.ahead.chain.1.getPrevPointer, chainPtr_eq_zero]
    have hvisible : upToEpoch readEpoch log ≠ [] := fun hnone => by simp [hnone] at hrest
    unfold CountsQuietly InOldest
    rw [hsize, or_iff_right hvisible, hnewest, hprev]
    constructor
    · rintro ⟨it'', heq, hsame⟩
      obtain ⟨rfl, rfl⟩ := Prod.mk.inj (Except.ok.inj heq)
      have hnil : rest = [] := by
        by_contra hne
        have hle : k ≤ (upToEpoch readEpoch log).length := hk
        obtain ⟨values, hvalues, -⟩ := (toList_yields hat.ahead htracked (Nat.le_refl k)).exists_ok
        rw [← hat.toList_view, ← hsame] at hvalues
        exact toList_behind (holder hne) k hvalues
      refine ⟨hheader0, hnil, ?_⟩
      by_cases hreads : it.readsWhole
      · obtain ⟨hn, hall⟩ := hwhole hreads
        rw [hnil] at hn
        have hzero : (chainEdges []).length = 0 := rfl
        exact Or.inl (by omega)
      · exact Or.inr hreads
    · rintro ⟨-, hnil, hone⟩
      refine ⟨it', ?_, ?_⟩
      · by_cases hreads : it.readsWhole
        · obtain ⟨hn, hall⟩ := hwhole hreads
          have hzero := hone.resolve_right (not_not_intro hreads)
          have hrest0 : (chainEdges rest).length = 0 := by
            rw [hnil]
            rfl
          rw [hn, hall, hrest0, hzero, Nat.add_comm]
        · rw [hpart hreads]
      · rw [hlast hnil]
        exact toList_oldest hheader0 (hprev.mpr hnil)

theorem standing_of {it : PointerIterator} {r : Nat} (hseg : it.segHeader = seg)
    (hheader : it.header = b.pointer seg.head)
    (hentries : it.entries = it.getEntries) (hcursor : it.entriesCursor = it.entries - r * edgeEntrySize)
    (hoffset : it.edgePropOffset = b.slot) (hchain : ChainOk tracked stride seg (b :: rest))
    (hpre : chainEdges (b :: rest) <+: edges) (hr : r ≤ b.edges.length) (hfilled : ∀ c ∈ rest, c.edges ≠ [])
    (hreadable : ∀ c ∈ b :: rest, Readable tracked stride seg (c.pointer seg.head) c) :
    Standing tracked stride seg edges it b rest ((chainEdges rest).length + r) := by
  have hview := view_remaining hcursor
  refine ⟨⟨hseg, hheader, hoffset, hchain, hpre, ?_, ?_, hfilled, hreadable⟩, hentries, ?_⟩
  · rw [hview]
    exact hr
  · rw [hview]
  · rw [hview]
    exact hcursor

theorem create_live (hchain : ChainOk tracked stride seg (b0 :: rest0))
    (hedges : chainEdges (b0 :: rest0) = log.map LogEntry.edge) (htable : EpochOk table log)
    (hfilled : ∀ c ∈ b0 :: rest0, c.edges ≠ [])
    (hreadable : ∀ c ∈ b0 :: rest0, Readable tracked stride seg (c.pointer seg.head) c) (edgePropSize : Nat) :
    Ensures (create seg (b0.pointer seg.head) (some table) b0.edges.length edgePropSize readEpoch)
      (fun it => Made seg (some table) b0.edges.length readEpoch it ∧
        Live tracked stride seg (log.map LogEntry.edge) (upToEpoch readEpoch log).length it) Never := by
  have hend := readEnd_spec hchain hedges htable readEpoch
  obtain ⟨hhead, holder⟩ := List.forall_mem_cons.mp hfilled
  unfold create init
  dsimp only
  rw [if_neg (Block.pointer_ne_zero _ _)]
  cases hcase : EdgeIterator.findReadEnd readEpoch none table.entries with
  | nothing => exact ⟨⟨rfl, rfl, rfl, rfl⟩, Or.inl ⟨rfl, rfl⟩⟩
  | whole =>
    rw [hcase] at hend
    have hend : (upToEpoch readEpoch log).length = (chainEdges rest0).length + b0.edges.length := hend
    have hpos := List.length_pos_iff.mpr hhead
    refine ⟨⟨rfl, rfl, rfl, rfl⟩, Or.inr ⟨b0, rest0, _, ?_, ?_, Nat.le_of_eq hend.symm⟩⟩
    · exact standing_of rfl rfl rfl rfl (seg.getAllocatedEdgeNum_pointer b0) hchain (by rw [hedges]) (Nat.le_refl _)
        holder hreadable
    · omega
  | upTo offset =>
    rw [hcase] at hend
    obtain ⟨hoff, hwalk⟩ := hend
    obtain ⟨pointer, hptr, b', rest', hsuf, rfl, hnum, hch, hpre, hlt, hle⟩ := hwalk.exists_ok
    have htail : rest' <:+ rest0 := by
      rcases List.suffix_cons_iff.mp hsuf with heq' | hsuf'
      · rw [(List.cons.inj heq').2]
      · exact (List.suffix_cons _ _).trans hsuf'
    dsimp only
    rw [hptr]
    refine ⟨⟨rfl, rfl, rfl, rfl⟩, Or.inr ⟨b', rest',
      (chainEdges rest').length + (offset - seg.getPrevNumEntries (b'.pointer seg.head)), ?_, by omega, by omega⟩⟩
    exact standing_of rfl rfl rfl rfl (seg.getAllocatedEdgeNum_pointer b') hch hpre (by omega)
      (fun c hc => holder c (htail.subset hc)) (fun c hc => hreadable c (hsuf.subset hc))

end list

end walk

theorem countsQuietly_empty {it : PointerIterator} (h : it.epochHeader = none) : CountsQuietly it 0 := by
  refine ⟨it, ?_, fun _ => rfl⟩
  unfold PointerIterator.size
  rw [h]

end PointerIterator

/-! ### The iterators of a graph -/

section graph
variable {stride : Nat → Nat} {g : SegGraph} {own : Nat → Option Owner} {log : Log} {v l e size : Nat} {d : Dir}

theorem openEdges_counts (h : GraphInv (fun _ => True) stride g own log NoHole) (hv : v < g.vertexId) :
    Ensures (openEdges g v l d size e)
      (fun start => ∀ it, start.Reached it → (it.CountsQuietly (upToEpoch e (log v l d)).length ↔
        upToEpoch e (log v l d) = [] ∨
          it.InOldest ((g.segments (locateSegment g (v / vertexPerSeg) l d)).regionPtrs (v % vertexPerSeg))))
              Never := by
  have hidx : v % vertexPerSeg < vertexPerSeg := Nat.mod_lt _ (by unfold vertexPerSeg; omega)
  have hvertex := vertexOf_div_mod v
  have hempty : ∀ seg newest, log v l d = [] → Ensures (PointerIterator.create seg 0 none 0 0 e)
      (fun start => ∀ it, start.Reached it → (it.CountsQuietly (upToEpoch e (log v l d)).length ↔
        upToEpoch e (log v l d) = [] ∨ it.InOldest newest)) Never := by
    intro seg newest hnil
    rw [hnil]
    intro it hreached
    have hnone : it.epochHeader = none :=
      (hreached.made (⟨rfl, rfl, rfl, rfl⟩ : PointerIterator.Made seg none 0 e _)).epochHeader
    exact ⟨fun _ => Or.inl rfl, fun _ => PointerIterator.countsQuietly_empty hnone⟩
  unfold openEdges
  rw [locateSegment_eq]
  dsimp only
  by_cases h0 : g.locateSegment (v / vertexPerSeg) l d = 0
  · rw [if_pos (Or.inr h0)]
    have hnil := h.absent _ _ _ h0 _ hidx
    rw [hvertex] at hnil
    exact hempty _ _ hnil
  · rw [if_neg (not_or.mpr ⟨Nat.not_le.mpr hv, h0⟩)]
    obtain ⟨C, hinv, hlists⟩ := h.holds _ _ _ h0
    have hlist := hlists _ hidx
    dsimp only at hlist
    rw [hvertex] at hlist
    generalize g.segments (g.locateSegment (v / vertexPerSeg) l d) = seg at hinv hlist ⊢
    by_cases hnil : log v l d = []
    · rw [if_pos (Or.inr (hlist.noTable hnil))]
      exact hempty _ _ hnil
    · obtain ⟨htable, -, hok⟩ := hlist.table hnil
      have hregion := hinv.region (v % vertexPerSeg)
      have hchain := hinv.chain (v % vertexPerSeg)
      have hbound := hinv.edges_length_le hidx
      have hbytes := hinv.allocated_bytes
      have hread : ∀ c ∈ C (v % vertexPerSeg), Readable True (stride l) seg (c.pointer seg.head) c :=
        fun c hc => hinv.readable hc
      have hedges := hlist.edges
      cases hC : C (v % vertexPerSeg) with
      | nil =>
        rw [hC] at hedges
        exact absurd (List.map_eq_nil_iff.mp hedges.symm) hnil
      | cons b rest =>
        rw [hC] at hregion hchain hread hedges hbound
        have hptr : seg.regionPtrs (v % vertexPerSeg) = b.pointer seg.head := hregion
        have holder := hlist.older b rest hC
        have hfilled : ∀ c ∈ b :: rest, c.edges ≠ [] :=
          List.forall_mem_cons.mpr ⟨hlist.head (fun hhole => hhole) b rest hC, holder⟩
        rw [hptr, if_neg (not_or.mpr ⟨Block.pointer_ne_zero _ _, htable⟩), hchain.1.getNumEntries]
        have hlen := congrArg List.length hedges
        rw [List.length_map] at hlen
        refine (PointerIterator.create_live hchain hedges hok hfilled hread size).imp ?_
        rintro start ⟨hmade, hlive⟩ it hreached
        exact PointerIterator.countsQuietly_iff (hreached.live hlive)
            (hreached.made hmade) hchain hedges hok holder trivial (by omega)

end graph

def newestBlock (g : SegGraph) (v label : Nat) (dir : Dir) : Nat :=
  (g.segments (locateSegment g (v / vertexPerSeg) label dir)).regionPtrs (v % vertexPerSeg)

/-- After any calls on the graph, for a reader of any epoch and from every state of its iterator: `size` counts the
edges that were put up to the epoch and leaves the rest of the iteration as it was exactly if there is none of them,
or if the iterator is in the oldest block and the list has no other block, or an epoch that is not visible. -/
theorem countsQuietly_reached {edgePropSize : Nat → Nat} {capacity : Nat} {undirected : List Bool} {calls : List Call}
    {g : SegGraph} {v l e size : Nat} {d : Dir} (hcap : capacity ≤ 2 ^ 64) (hsize : ∀ l, edgePropSize l ≤ 16382)
    (htyped : ∀ call ∈ calls, call.WellTyped edgePropSize)
    (hmono : (calls.filterMap Call.writeEpoch).Pairwise (· ≤ ·))
    (hcount : capacity ≤ 2 ^ 35 ∨
      ∀ v l d, (logOf (fun l => undirected.getD l false) calls v l d).length < 2 ^ 32)
    (hrun : runCalls (create capacity undirected) calls = .ok g) (hv : v < g.vertexId) :
    ∃ start, openEdges g v l d size e = .ok start ∧ ∀ it, start.Reached it →
      (it.CountsQuietly (putsUpTo (fun l => undirected.getD l false) calls e v l d).length ↔
        putsUpTo (fun l => undirected.getD l false) calls e v l d = [] ∨ it.InOldest (newestBlock g v l d)) := by
  obtain ⟨own, hgraph⟩ := ((run_inv hcap hsize htyped hmono hcount).of_ok hrun).graph
  obtain ⟨start, hstart, hall⟩ := (openEdges_counts hgraph hv).exists_ok
  refine ⟨start, hstart, ?_⟩
  rw [putsUpTo_eq, List.length_map, List.map_eq_nil_iff]
  exact hall

theorem sampleCalls_opened : ∃ g start it', runCalls (create (2 ^ 30) [false]) sampleCalls = .ok g ∧ 0 < g.vertexId ∧
    openEdges g 0 0 .eout 1 2 = .ok start ∧ start.size = .ok (5, it') ∧
    (start.toList 5).toOption.map (List.map Prod.fst) = some [14, 13, 12, 11, 10] ∧
    (it'.toList 5).toOption.map (List.map Prod.fst) = none := by
  have hrun : ((runCalls (create (2 ^ 30) [false]) sampleCalls).toOption.bind fun g =>
      (openEdges g 0 0 .eout 1 2).toOption.bind fun start =>
      start.size.toOption.map fun counted =>
        (decide (0 < g.vertexId ∧ counted.1 = 5), (start.toList 5).toOption.map (List.map Prod.fst),
          (counted.2.toList 5).toOption.map (List.map Prod.fst))) = some (true, some [14, 13, 12, 11, 10], none) := by
    decide +kernel
  obtain ⟨g, hg, hrun⟩ := Option.bind_eq_some_iff.mp hrun
  obtain ⟨start, hstart, hrun⟩ := Option.bind_eq_some_iff.mp hrun
  obtain ⟨⟨n, it'⟩, hsize, hrun⟩ := Option.map_eq_some_iff.mp hrun
  obtain ⟨hfacts, hlists⟩ := Prod.mk.inj hrun
  obtain ⟨hbefore, hafter⟩ := Prod.mk.inj hlists
  obtain ⟨hv, rfl⟩ := of_decide_eq_true hfacts
  exact ⟨g, start, it', ok_of_toOption hg, hv, ok_of_toOption hstart, ok_of_toOption hsize, hbefore, hafter⟩

theorem countsQuietly_reached_sample : ∃ g, runCalls (create (2 ^ 30) [false]) sampleCalls = .ok g ∧
    ∃ start, openEdges g 0 0 .eout 1 1 = .ok start ∧ ∀ it, start.Reached it →
      (it.CountsQuietly (putsUpTo (fun l => [false].getD l false) sampleCalls 1 0 0 .eout).length ↔
        putsUpTo (fun l => [false].getD l false) sampleCalls 1 0 0 .eout = [] ∨
          it.InOldest (newestBlock g 0 0 .eout)) := by
  obtain ⟨g, -, -, hrun, hv, -⟩ := sampleCalls_opened
  exact ⟨g, hrun, @countsQuietly_reached (fun _ => 1) (2 ^ 30) [false] sampleCalls g 0 0 1 1 .eout
    (Nat.pow_le_pow_right (by decide) (by decide)) (fun _ => Nat.le_of_ble_eq_true rfl)
    (by simp [sampleCalls, Call.WellTyped, deleteFlag]) (by decide)
    (Or.inl (Nat.pow_le_pow_right (by decide) (by decide))) hrun hv⟩

/-- Counting the five edges of two blocks with a fresh iterator: the count is right, and the iteration afterwards
does not end. -/
theorem size_disturbs_sample : ∃ g start, runCalls (create (2 ^ 30) [false]) sampleCalls = .ok g ∧
    openEdges g 0 0 .eout 1 2 = .ok start ∧ start.Reached start ∧
    ¬ start.CountsQuietly (putsUpTo (fun l => [false].getD l false) sampleCalls 2 0 0 .eout).length := by
  obtain ⟨g, start, it', hrun, -, hstart, hsize, hbefore, hafter⟩ := sampleCalls_opened
  refine ⟨g, start, hrun, hstart, .start, ?_⟩
  rintro ⟨it'', heq, hsame⟩
  rw [hsize] at heq
  rw [← (Prod.mk.inj (Except.ok.inj heq)).2] at hsame
  rw [hsame 5, hbefore] at hafter
  cases hafter

end Gart.Fragment
