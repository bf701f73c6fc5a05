import Gart.Fragment.EdgeIterator
import Gart.Lib.Loads
import Gart.Seggraph.LabelBlock

/-!
# The loads of a reader (interfaces/fragment/iterator.h, gart_fragment.h)

A fragment reads an adjacency list in memory that the writer goes on to change. Here the same functions make their
loads one by one: an iterator keeps the address of its segment, and the words behind it are read anew each time. An
entry of a label block or of an epoch table does not move once it is counted, so a label is looked up in one load, and
the entries of a table are counted from the oldest one.
-/

namespace Gart.Fragment
open Gart.ByteMemory Gart.Outcome Gart.Seggraph Gart.Loads

/-- An `EdgeIterator` with the address of its segment. -/
structure Cursor where
  segment : Nat
  edgeBlockHeader : Nat
  remaining : Nat
  edgePropSize : Nat
  edgePropOffset : Nat
  deleteOffsets : List Nat

namespace Cursor

def iterator (c : Cursor) (g : SegGraph) : EdgeIterator :=
  { segHeader := g.segments c.segment
    edgeBlockHeader := c.edgeBlockHeader
    remaining := c.remaining
    edgePropSize := c.edgePropSize
    edgePropOffset := c.edgePropOffset
    deleteOffsets := c.deleteOffsets }

def empty (segment edgePropSize : Nat) : Cursor :=
  { segment := segment, edgeBlockHeader := 0, remaining := 0, edgePropSize := edgePropSize, edgePropOffset := 0
    deleteOffsets := [] }

def loadSegment {α : Type} (segment : Nat) (f : VegitoSegment → α) : Loads SegGraph α :=
  .get fun g => f (g.segments segment)

/-- The entry of an epoch table that was appended after `k` others. -/
def tableEntry (table k : Nat) (g : SegGraph) : EpochEntry := ((g.epochBlocks table).entries.reverse[k]?).getD ⟨0, 0⟩

/-! ### The iterator -/

/-- The scan of `init` over an epoch table of `num` entries, of which the oldest `left` are still ahead. -/
def findReadEnd (table readEpoch num : Nat) : Nat → Loads SegGraph EdgeIterator.ReadEnd
  | 0 => pure .nothing
  | left + 1 => do
    let epoch ← .get fun g => (tableEntry table left g).epoch
    if readEpoch ≥ epoch then
      if left + 1 = num then pure .whole
      else do
        let offset ← .get fun g => (tableEntry table (left + 1) g).offset
        pure (.upTo offset)
    else findReadEnd table readEpoch num left

def walkBack (segment readEndOffset : Nat) : Nat → Nat → Loads SegGraph (Except Fault Nat)
  | 0, _ => pure (.error .endlessChain)
  | fuel + 1, edgeBlock =>
    if edgeBlock = 0 then pure (.error .nullBlock)
    else do
      let prevNum ← loadSegment segment fun seg => seg.getPrevNumEntries edgeBlock
      if prevNum ≥ readEndOffset then do
        let prev ← loadSegment segment fun seg => seg.getPrevPointer edgeBlock
        walkBack segment readEndOffset fuel prev
      else pure (.ok edgeBlock)

def scanBlock (segment edgeBlock : Nat) : Nat → List Nat → Loads SegGraph (Nat × List Nat × Bool)
  | 0, offsets => pure (0, offsets, false)
  | r + 1, offsets => do
    let vid ← loadSegment segment fun seg => seg.getEntry edgeBlock r
    if vid ≥ deleteFlag then scanBlock segment edgeBlock r (MarkerLog.push (vid - deleteFlag) offsets)
    else
      match offsets with
      | [] => pure (r + 1, [], true)
      | top :: rest => do
        let prevNum ← loadSegment segment fun seg => seg.getPrevNumEntries edgeBlock
        if top ≠ r + prevNum then pure (r + 1, top :: rest, true)
        else scanBlock segment edgeBlock r rest

def findRound (c : Cursor) : Loads SegGraph (Cursor × Bool) := do
  let scanned ← scanBlock c.segment c.edgeBlockHeader c.remaining c.deleteOffsets
  let c' := { c with remaining := scanned.1, deleteOffsets := scanned.2.1 }
  if scanned.2.2 then pure (c', true)
  else do
    let prev ← loadSegment c.segment fun seg => seg.getPrevPointer c.edgeBlockHeader
    if prev = 0 then pure (c', true)
    else do
      let num ← loadSegment c.segment fun seg => seg.getNumEntries prev
      let offset ← loadSegment c.segment fun seg => seg.getAllocatedEdgeNum prev
      pure ({ c' with edgeBlockHeader := prev, remaining := num, edgePropOffset := offset }, false)

def findLoop : Nat → Cursor → Loads SegGraph (Except Fault Cursor)
  | 0, c => do
    let round ← c.findRound
    if round.2 then pure (.ok round.1) else pure (.error .endlessChain)
  | fuel + 1, c => do
    let round ← c.findRound
    if round.2 then pure (.ok round.1) else findLoop fuel round.1

/-- `EdgeIterator::find_next_valid_cursor` (`iterator.h:369-417`) -/
def findNextValidCursor (c : Cursor) (fuel : Nat) : Loads SegGraph (Except Fault Cursor) :=
  if c.edgeBlockHeader = 0 then pure (.ok c) else findLoop fuel c

/-- The end of the constructor, behind `init`. -/
def settle (c : Cursor) : Loads SegGraph (Except Fault Cursor) := do
  match ← c.findNextValidCursor chainLimit with
  | .error fault => pure (.error fault)
  | .ok c => do
    let offset ← loadSegment c.segment fun seg => seg.getAllocatedEdgeNum c.edgeBlockHeader
    pure (.ok { c with edgePropOffset := offset })

def createCounted (segment edgeBlockHeader table numEntries edgePropSize readEpoch num : Nat) :
    Loads SegGraph (Except Fault Cursor) := do
  let c := { empty segment edgePropSize with edgeBlockHeader := edgeBlockHeader }
  match ← findReadEnd table readEpoch num num with
  | .nothing => settle (empty segment edgePropSize)
  | .whole => settle { c with remaining := numEntries }
  | .upTo offset => do
    match ← walkBack segment offset chainLimit edgeBlockHeader with
    | .error fault => pure (.error fault)
    | .ok block => do
      let prevNum ← loadSegment segment fun seg => seg.getPrevNumEntries block
      settle { c with edgeBlockHeader := block, remaining := offset - prevNum }

/-- `EdgeIterator` (`iterator.h:222-289`) -/
def create (segment edgeBlockHeader table numEntries edgePropSize readEpoch : Nat) :
    Loads SegGraph (Except Fault Cursor) := do
  let num ← .get fun g => (g.epochBlocks table).entries.length
  createCounted segment edgeBlockHeader table numEntries edgePropSize readEpoch num

def valid (c : Cursor) : Bool := c.remaining != 0

def next (c : Cursor) : Loads SegGraph (Except Fault Cursor) :=
  { c with remaining := c.remaining - 1 }.findNextValidCursor chainLimit

def neighbor (c : Cursor) : Loads SegGraph Nat :=
  loadSegment c.segment fun seg => seg.getEntry c.edgeBlockHeader (c.remaining - 1)

def edgeData (c : Cursor) : Loads SegGraph (Except Fault Bytes) :=
  loadSegment c.segment fun seg => seg.getProperty (c.edgePropOffset + c.remaining - 1) c.edgePropSize

/-- `EdgeIterator::next` (`iterator.h:299-325`) -/
def toList : Nat → Cursor → Loads SegGraph (Except Fault (List (Nat × Bytes)))
  | 0, c => if c.valid then pure (.error .endlessChain) else pure (.ok [])
  | fuel + 1, c =>
    if c.valid then do
      match ← c.edgeData with
      | .error fault => pure (.error fault)
      | .ok data => do
        let neighbor ← c.neighbor
        match ← c.next with
        | .error fault => pure (.error fault)
        | .ok c' => do
          let rest ← toList fuel c'
          pure (rest.map ((neighbor, data) :: ·))
    else pure (.ok [])

end Cursor

/-! ### The fragment -/

namespace Loaded
open Cursor

/-- `locate_segment_` (`gart_fragment.h:1245-1280`) -/
def locateSegment (segId eLabel : Nat) (dir : Dir) : Loads SegGraph Nat := do
  let headerOffset ← .get fun g => g.edgeLabelPtrs segId
  if headerOffset = 0 then pure 0
  else .get fun g => entriesPointer (g.edgeLabelBlocks headerOffset).entries eLabel dir

/-- `get_edges_in_seg_` (`gart_fragment.h:1282-1327`) -/
def getEdgesInSeg (segment segIdx edgePropSize readEpoch : Nat) : Loads SegGraph (Except Fault Cursor) :=
  if segment = 0 then pure (.ok (Cursor.empty segment edgePropSize))
  else do
    let epochTable ← loadSegment segment fun seg => seg.epochTables segIdx
    let edgeBlock ← loadSegment segment fun seg => seg.regionPtrs segIdx
    if epochTable = 0 ∨ edgeBlock = 0 then pure (.ok (Cursor.empty segment edgePropSize))
    else do
      let numEntries ← loadSegment segment fun seg => seg.getNumEntries edgeBlock
      if numEntries = 0 then pure (.ok (Cursor.empty segment edgePropSize))
      else Cursor.create segment edgeBlock epochTable numEntries edgePropSize readEpoch

def readAll : Except Fault Cursor → Loads SegGraph (Except Fault (List (Nat × Bytes)))
  | .error fault => pure (.error fault)
  | .ok c => do
    let blockSize ← loadSegment c.segment VegitoSegment.blockSize
    c.toList blockSize

/-- `GetOutgoingAdjList` and `GetIncomingAdjList` (`gart_fragment.h:1131-1161`), and all that the iterator yields. -/
def readAdjList (v eLabel : Nat) (dir : Dir) (edgePropSize readEpoch : Nat) :
    Loads SegGraph (Except Fault (List (Nat × Bytes))) := do
  let segment ← locateSegment (v / vertexPerSeg) eLabel dir
  let found ← getEdgesInSeg segment (v % vertexPerSeg) edgePropSize readEpoch
  readAll found

end Loaded

/-! ### All loads from one state

A reader whose loads all see the same state is the reader of `EdgeIterator`. -/

namespace Cursor

@[simp] theorem eval_loadSegment {α : Type} (g : SegGraph) (segment : Nat) (f : VegitoSegment → α) :
    (loadSegment segment f).eval g = f (g.segments segment) := rfl

theorem tableEntry_of_split {g : SegGraph} {table : Nat} {newer older : List EpochEntry} {entry : EpochEntry}
    (h : (g.epochBlocks table).entries = newer ++ entry :: older) : tableEntry table older.length g = entry := by
  unfold tableEntry
  rw [h]
  simp

theorem eval_findReadEnd (g : SegGraph) (table readEpoch : Nat) {newer older : List EpochEntry}
    (hsplit : (g.epochBlocks table).entries = newer ++ older) :
    (findReadEnd table readEpoch (g.epochBlocks table).entries.length older.length).eval g =
      EdgeIterator.findReadEnd readEpoch newer.getLast? older := by
  induction older generalizing newer with
  | nil => rfl
  | cons entry older ih =>
    have hentry := tableEntry_of_split hsplit
    have hrest := @ih (newer ++ [entry]) (by rw [hsplit, List.append_assoc]; rfl)
    rw [List.getLast?_concat] at hrest
    rw [List.length_cons]
    unfold findReadEnd EdgeIterator.findReadEnd
    rw [Loads.eval_bind, Loads.eval_get, hentry]
    by_cases hvisible : readEpoch ≥ entry.epoch
    · rw [if_pos hvisible, if_pos hvisible]
      rcases List.eq_nil_or_concat newer with hnil | ⟨before, last, hconcat⟩
      · rw [if_pos (by rw [hsplit, hnil]; simp), hnil]
        rfl
      · rw [List.concat_eq_append] at hconcat
        have hlast : tableEntry table (older.length + 1) g = last := by
          have hat : (g.epochBlocks table).entries = before ++ last :: entry :: older := by
            rw [hsplit, hconcat, List.append_assoc]
            rfl
          exact tableEntry_of_split hat
        have hmore : ¬ older.length + 1 = (g.epochBlocks table).entries.length := by
          rw [hsplit, hconcat]
          simp
          omega
        rw [if_neg hmore, hconcat, List.getLast?_concat, Loads.eval_bind, Loads.eval_get, hlast]
        rfl
    · rw [if_neg hvisible, if_neg hvisible]
      exact hrest

theorem eval_walkBack (g : SegGraph) (segment readEndOffset fuel edgeBlock : Nat) :
    (walkBack segment readEndOffset fuel edgeBlock).eval g =
      EdgeIterator.walkBack (g.segments segment) readEndOffset fuel edgeBlock := by
  induction fuel generalizing edgeBlock with
  | zero => rfl
  | succ fuel ih =>
    unfold walkBack EdgeIterator.walkBack
    by_cases hnull : edgeBlock = 0
    · rw [if_pos hnull, if_pos hnull]
      rfl
    · rw [if_neg hnull, if_neg hnull, Loads.eval_bind, eval_loadSegment]
      generalize (g.segments segment).getPrevNumEntries edgeBlock = prevNum
      by_cases hback : prevNum ≥ readEndOffset
      · rw [if_pos hback, if_pos hback, Loads.eval_bind, eval_loadSegment, ih]
      · rw [if_neg hback, if_neg hback]
        rfl

theorem eval_scanBlock (g : SegGraph) (segment edgeBlock r : Nat) (offsets : List Nat) :
    (scanBlock segment edgeBlock r offsets).eval g =
      EdgeIterator.scanBlock (g.segments segment) edgeBlock r offsets := by
  induction r generalizing offsets with
  | zero => rfl
  | succ r ih =>
    unfold scanBlock EdgeIterator.scanBlock
    rw [Loads.eval_bind, eval_loadSegment]
    dsimp only
    generalize (g.segments segment).getEntry edgeBlock r = vid
    by_cases hmarker : vid ≥ deleteFlag
    · rw [if_pos hmarker, if_pos hmarker, ih]
    · rw [if_neg hmarker, if_neg hmarker]
      cases offsets with
      | nil => rfl
      | cons top rest =>
        dsimp only
        rw [Loads.eval_bind, eval_loadSegment]
        generalize (g.segments segment).getPrevNumEntries edgeBlock = prevNum
        by_cases hskip : top ≠ r + prevNum
        · rw [if_pos hskip, if_pos hskip]
          rfl
        · rw [if_neg hskip, if_neg hskip, ih]

theorem eval_findRound (g : SegGraph) (c : Cursor) :
    ((c.findRound.eval g).1.iterator g, (c.findRound.eval g).2) = (c.iterator g).findRound ∧
      (c.findRound.eval g).1.segment = c.segment := by
  unfold findRound EdgeIterator.findRound
  rw [Loads.eval_bind, eval_scanBlock]
  dsimp only [iterator]
  generalize EdgeIterator.scanBlock (g.segments c.segment) c.edgeBlockHeader c.remaining c.deleteOffsets = scanned
  by_cases hfound : scanned.2.2 = true
  · rw [if_pos hfound, if_pos hfound]
    exact ⟨rfl, rfl⟩
  · rw [if_neg hfound, if_neg hfound, Loads.eval_bind, eval_loadSegment]
    generalize (g.segments c.segment).getPrevPointer c.edgeBlockHeader = prev
    by_cases hfirst : prev = 0
    · rw [if_pos hfirst, if_pos hfirst]
      exact ⟨rfl, rfl⟩
    · rw [if_neg hfirst, if_neg hfirst]
      exact ⟨rfl, rfl⟩

/-- The loads of an iterator end as the iterator of one state does. -/
def Matches (g : SegGraph) (segment : Nat) (x : Except Fault Cursor) (y : Except Fault EdgeIterator) : Prop :=
  x.map (fun c => c.iterator g) = y ∧ ∀ c, x = .ok c → c.segment = segment

theorem eval_findLoop (g : SegGraph) (c : Cursor) (fuel : Nat) :
    Matches g c.segment ((findLoop fuel c).eval g) ((c.iterator g).findLoop fuel) := by
  induction fuel generalizing c with
  | zero =>
    obtain ⟨hround, hseg⟩ := eval_findRound g c
    unfold findLoop EdgeIterator.findLoop
    rw [Loads.eval_bind, ← hround]
    dsimp only
    by_cases hlast : (c.findRound.eval g).2 = true
    · rw [if_pos hlast, if_pos hlast]
      exact ⟨rfl, fun c' hc' => Except.ok.inj hc' ▸ hseg⟩
    · rw [if_neg hlast, if_neg hlast]
      exact ⟨rfl, fun c' hc' => by cases hc'⟩
  | succ fuel ih =>
    obtain ⟨hround, hseg⟩ := eval_findRound g c
    unfold findLoop EdgeIterator.findLoop
    rw [Loads.eval_bind, ← hround]
    dsimp only
    by_cases hlast : (c.findRound.eval g).2 = true
    · rw [if_pos hlast, if_pos hlast]
      exact ⟨rfl, fun c' hc' => Except.ok.inj hc' ▸ hseg⟩
    · rw [if_neg hlast, if_neg hlast, ← hseg]
      exact ih _

theorem eval_findNextValidCursor (g : SegGraph) (c : Cursor) (fuel : Nat) :
    Matches g c.segment ((c.findNextValidCursor fuel).eval g) ((c.iterator g).findNextValidCursor fuel) := by
  have hheader : (c.iterator g).edgeBlockHeader = c.edgeBlockHeader := rfl
  unfold findNextValidCursor EdgeIterator.findNextValidCursor
  rw [hheader]
  by_cases hnull : c.edgeBlockHeader = 0
  · rw [if_pos hnull, if_pos hnull]
    exact ⟨rfl, fun c' hc' => Except.ok.inj hc' ▸ rfl⟩
  · rw [if_neg hnull, if_neg hnull]
    exact eval_findLoop g c fuel

theorem eval_settle (g : SegGraph) (c : Cursor) :
    Matches g c.segment (c.settle.eval g) (do
      let it ← (c.iterator g).findNextValidCursor chainLimit
      .ok { it with edgePropOffset := (g.segments c.segment).getAllocatedEdgeNum it.edgeBlockHeader }) := by
  have hfind := eval_findNextValidCursor g c chainLimit
  unfold settle
  rw [Loads.eval_bind]
  generalize (c.findNextValidCursor chainLimit).eval g = found at hfind ⊢
  obtain ⟨hmap, hseg⟩ := hfind
  rw [← hmap]
  cases found with
  | error fault => exact ⟨rfl, fun c' hc' => by cases hc'⟩
  | ok c' =>
    have hsame := hseg c' rfl
    refine ⟨?_, fun c'' hc'' => Except.ok.inj hc'' ▸ hsame⟩
    rw [← hsame]
    rfl

theorem eval_create (g : SegGraph) (segment edgeBlock table numEntries edgePropSize readEpoch : Nat) :
    Matches g segment ((create segment edgeBlock table numEntries edgePropSize readEpoch).eval g)
      (EdgeIterator.create (g.segments segment) edgeBlock (g.epochBlocks table) numEntries edgePropSize readEpoch) := by
  have hend := @eval_findReadEnd g table readEpoch [] _ (List.nil_append (g.epochBlocks table).entries).symm
  unfold create createCounted EdgeIterator.create
  rw [Loads.eval_bind, Loads.eval_get, Loads.eval_bind, hend]
  dsimp only [List.getLast?_nil]
  cases EdgeIterator.findReadEnd readEpoch none (g.epochBlocks table).entries with
  | nothing => exact eval_settle g (empty segment edgePropSize)
  | whole =>
    exact eval_settle g { empty segment edgePropSize with edgeBlockHeader := edgeBlock, remaining := numEntries }
  | upTo offset =>
    dsimp only
    rw [Loads.eval_bind, eval_walkBack]
    cases EdgeIterator.walkBack (g.segments segment) offset chainLimit edgeBlock with
    | error fault => exact ⟨rfl, fun c' hc' => by cases hc'⟩
    | ok block =>
      exact eval_settle g { empty segment edgePropSize with
        edgeBlockHeader := block, remaining := offset - (g.segments segment).getPrevNumEntries block }

theorem eval_toList (g : SegGraph) (c : Cursor) (fuel : Nat) :
    (toList fuel c).eval g = (c.iterator g).toList fuel := by
  induction fuel generalizing c with
  | zero =>
    have hvalid : (c.iterator g).valid = c.valid := rfl
    unfold toList EdgeIterator.toList
    rw [hvalid, Loads.eval_ite]
    rfl
  | succ fuel ih =>
    have hvalid : (c.iterator g).valid = c.valid := rfl
    have hdata : c.edgeData.eval g = (c.iterator g).edgeData := rfl
    have hneighbor : c.neighbor.eval g = (c.iterator g).neighbor := rfl
    have hnext : Matches g c.segment (c.next.eval g) (c.iterator g).next :=
      eval_findNextValidCursor g { c with remaining := c.remaining - 1 } chainLimit
    unfold toList EdgeIterator.toList
    rw [hvalid]
    cases c.valid with
    | false => rfl
    | true =>
      rw [if_pos rfl, if_pos rfl, Loads.eval_bind, hdata]
      cases (c.iterator g).edgeData with
      | error fault => rfl
      | ok data =>
        dsimp only
        rw [Loads.eval_bind, hneighbor, Loads.eval_bind]
        generalize c.next.eval g = step at hnext ⊢
        rw [← hnext.1]
        cases step with
        | error fault => rfl
        | ok c' =>
          dsimp only
          rw [Loads.eval_bind, ih]
          show Except.map _ ((c'.iterator g).toList fuel) = (do
            let rest ← (c'.iterator g).toList fuel
            .ok (((c.iterator g).neighbor, data) :: rest))
          cases (c'.iterator g).toList fuel with
          | error fault => rfl
          | ok rest => rfl

end Cursor

namespace Loaded
open Cursor

theorem eval_locateSegment (g : SegGraph) (segId eLabel : Nat) (dir : Dir) :
    (locateSegment segId eLabel dir).eval g = Fragment.locateSegment g segId eLabel dir := by
  have hlocate : Fragment.locateSegment g segId eLabel dir = if g.edgeLabelPtrs segId = 0 then 0
      else entriesPointer (g.edgeLabelBlocks (g.edgeLabelPtrs segId)).entries eLabel dir := rfl
  unfold locateSegment
  rw [hlocate, Loads.eval_bind, Loads.eval_get, Loads.eval_ite]
  rfl

theorem eval_getEdgesInSeg (g : SegGraph) (segment segIdx edgePropSize readEpoch : Nat) :
    Matches g segment ((getEdgesInSeg segment segIdx edgePropSize readEpoch).eval g)
      (Fragment.getEdgesInSeg g segment segIdx edgePropSize readEpoch) := by
  have hempty : Matches g segment (.ok (Cursor.empty segment edgePropSize))
      (.ok (EdgeIterator.empty (g.segments segment) edgePropSize)) :=
    ⟨rfl, fun c' hc' => Except.ok.inj hc' ▸ rfl⟩
  unfold getEdgesInSeg Fragment.getEdgesInSeg
  dsimp only
  by_cases hsegment : segment = 0
  · rw [if_pos hsegment, if_pos hsegment]
    exact hempty
  · rw [if_neg hsegment, if_neg hsegment, Loads.eval_bind, eval_loadSegment, Loads.eval_bind, eval_loadSegment]
    generalize (g.segments segment).epochTables segIdx = epochTable
    generalize (g.segments segment).regionPtrs segIdx = edgeBlock
    by_cases hnone : epochTable = 0 ∨ edgeBlock = 0
    · rw [if_pos hnone, if_pos hnone]
      exact hempty
    · rw [if_neg hnone, if_neg hnone, Loads.eval_bind, eval_loadSegment]
      generalize (g.segments segment).getNumEntries edgeBlock = numEntries
      by_cases hzero : numEntries = 0
      · rw [if_pos hzero, if_pos hzero]
        exact hempty
      · rw [if_neg hzero, if_neg hzero]
        exact eval_create g segment edgeBlock epochTable numEntries edgePropSize readEpoch

theorem eval_readAll {g : SegGraph} {segment : Nat} {x : Except Fault Cursor} {y : Except Fault EdgeIterator}
    (h : Matches g segment x y) :
    (readAll x).eval g = y >>= fun it => it.toList it.segHeader.blockSize := by
  rw [← h.1]
  cases x with
  | error fault => rfl
  | ok c =>
    unfold readAll
    rw [Loads.eval_bind, eval_loadSegment, eval_toList]
    rfl

theorem eval_readAdjList (g : SegGraph) (v eLabel : Nat) (dir : Dir) (edgePropSize readEpoch : Nat) :
    (readAdjList v eLabel dir edgePropSize readEpoch).eval g =
      Fragment.readAdjList g v eLabel dir edgePropSize readEpoch := by
  unfold readAdjList Fragment.readAdjList getAdjList
  rw [Loads.eval_bind, eval_locateSegment, Loads.eval_bind]
  exact eval_readAll (eval_getEdgesInSeg g _ _ edgePropSize readEpoch)

end Loaded

end Gart.Fragment
