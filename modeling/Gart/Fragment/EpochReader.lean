import Gart.Fragment.Snapshot
import Gart.Fragment.VertexProps
import Gart.Store.InnerGraphs

/-!
# The reader inside the writer's process (epoch_graph_reader.cpp, edge_iterator.hpp)

`EpochGraphReader` walks the same blocks as the iterator of the fragment. It keeps the segments of the last
label that it found, does not look for delete markers, and takes the size of an edge's properties from the
relation mapping of the schema.
-/

namespace Gart.Fragment
open Gart.ByteMemory Gart.Outcome Gart.Seggraph Gart.Store

/-! ### The relation mapping (ddl.h) -/

/-- `RGMapping` (`ddl.cc:26-37`): the `edge_prop_size` of the entries of `edges_`. -/
structure RGMapping where
  edgePropSizes : List Nat
  deriving DecidableEq

namespace RGMapping

/-- `INIT_VEC_SZ` entries (`ddl.cc:24`). -/
def init : RGMapping := ⟨List.replicate 128 0⟩

/-- `define_nn_edge` (`ddl.cc:86-104`) -/
def defineNnEdge (rg : RGMapping) (edgeLabel edgePropSize : Nat) : RGMapping :=
  ⟨(rg.edgePropSizes ++ List.replicate (edgeLabel + 1 - rg.edgePropSizes.length) 0).set edgeLabel edgePropSize⟩

/-- The loop over the edge labels of the schema. A label is defined under its number behind the vertex
labels, and with the number of its properties. -/
def ofSchema (vlabelNum : Nat) (edgeDtypes : List (List PropertyDataType)) : RGMapping :=
  edgeDtypes.zipIdx.foldl (fun rg edge => rg.defineNnEdge (edge.2 + vlabelNum) edge.1.length) init

end RGMapping

inductive ReaderFault
  /-- `edges_` is accessed behind its end -/
  | noEdgeMeta
  | walk (fault : Fault)
  deriving DecidableEq

/-- `get_edge_prop_size` (`segment_graph.hpp:166-169`) -/
def RGMapping.getEdgePropSize (rg : RGMapping) (label : Nat) : Except ReaderFault Nat :=
  match rg.edgePropSizes[label]? with
  | none => .error .noEdgeMeta
  | some size => .ok size

/-! ### The iterator -/

/-- `EpochEdgeIterator` (`edge_iterator.hpp:36-194`); `remaining` is `entries - entries_cursor`, and `0` the null
`header`. -/
structure EpochEdgeIterator where
  segHeader : VegitoSegment
  header : Nat
  remaining : Nat
  edgePropSize : Nat
  edgePropOffset : Nat

namespace EpochEdgeIterator

def empty (segHeader : VegitoSegment) : EpochEdgeIterator :=
  { segHeader := segHeader, header := 0, remaining := 0, edgePropSize := 0, edgePropOffset := 0 }

/-- The constructor. Its scan of the epoch table and its walk back are those of the fragment's iterator. -/
def create (segHeader : VegitoSegment) (header : Nat) (epochTable : EpochBlock)
    (numEntries edgePropSize readEpoch : Nat) : Except Fault EpochEdgeIterator :=
  let start (header remaining : Nat) : EpochEdgeIterator :=
    { segHeader := segHeader, header := header, remaining := remaining, edgePropSize := edgePropSize
      edgePropOffset := segHeader.getAllocatedEdgeNum header }
  match EdgeIterator.findReadEnd readEpoch none epochTable.entries with
  | .nothing => .ok (start 0 0)
  | .whole => .ok (start header numEntries)
  | .upTo offset => do
    let block ← EdgeIterator.walkBack segHeader offset chainLimit header
    return start block (offset - segHeader.getPrevNumEntries block)

/-- `switch_block` (`edge_iterator.hpp:104-118`) -/
def switchBlock (it : EpochEdgeIterator) : Bool × EpochEdgeIterator :=
  if it.header = 0 then (false, it)
  else
    let prev := it.segHeader.getPrevPointer it.header
    if prev = 0 then (false, { it with header := 0 })
    else
      (true, { it with
        header := prev
        remaining := it.segHeader.getNumEntries prev
        edgePropOffset := it.segHeader.getAllocatedEdgeNum prev })

/-- `valid` (`edge_iterator.hpp:120-125`), which moves to the next block at the end of one. -/
def valid (it : EpochEdgeIterator) : Bool × EpochEdgeIterator :=
  if it.remaining = 0 then it.switchBlock else (true, it)

def next (it : EpochEdgeIterator) : EpochEdgeIterator := { it with remaining := it.remaining - 1 }

/-- `VERTEX_TOMBSTONE` (`segment_graph.hpp:258`) -/
def vertexTombstone : Nat := 2 ^ 64 - 1

def dstId (it : EpochEdgeIterator) : Nat × EpochEdgeIterator :=
  let v := it.valid
  if v.1 then (v.2.segHeader.getEntry v.2.header (v.2.remaining - 1), v.2) else (vertexTombstone, v.2)

/-- The bytes behind `edge_data`. -/
def edgeData (it : EpochEdgeIterator) : Except Fault Bytes :=
  it.segHeader.getProperty (it.edgePropOffset + it.remaining - 1) it.edgePropSize

/-- `while (it.valid()) { it.dst_id(); it.edge_data(); it.next(); }` -/
def toList : Nat → EpochEdgeIterator → Except Fault (List (Nat × Except Fault Bytes))
  | 0, it => if it.valid.1 then .error .endlessChain else .ok []
  | fuel + 1, it =>
    if it.valid.1 then do
      let dst := it.valid.2.dstId
      let rest ← toList fuel dst.2.next
      return (dst.1, dst.2.edgeData) :: rest
    else .ok []

end EpochEdgeIterator

/-! ### The reader -/

/-- `EpochGraphReader` (`epoch_graph_reader.hpp:23-65`) -/
structure EpochGraphReader where
  readEpoch : Nat
  segmentCacheMeta : Nat × Nat := (0, 0)
  segmentCachePtr : Nat × Nat := (0, 0)
  deriving DecidableEq

namespace EpochGraphReader

/-- `locate_segment` (`epoch_graph_reader.cpp:26-53`); a label that is found is kept. -/
def locateSegment (r : EpochGraphReader) (g : SegGraph) (segId label : Nat) (dir : Dir) : Nat × EpochGraphReader :=
  let pointer := g.edgeLabelPtrs segId
  if pointer = 0 then (0, r)
  else
    match (g.edgeLabelBlocks pointer).entries.find? (fun entry => entry.label == label) with
    | none => (0, r)
    | some entry =>
      (entry.getPointer dir, { r with
        segmentCacheMeta := (segId, label)
        segmentCachePtr := (entry.getPointer .eout, entry.getPointer .ein) })

/-- The test of `get_edges` on its cache. -/
def Hit (r : EpochGraphReader) (segId label : Nat) : Prop :=
  segId = r.segmentCacheMeta.1 ∧ label = r.segmentCacheMeta.2 ∧ (r.segmentCachePtr.1 ≠ 0 ∨ r.segmentCachePtr.2 ≠ 0)

instance (r : EpochGraphReader) (segId label : Nat) : Decidable (r.Hit segId label) :=
  inferInstanceAs (Decidable (_ ∧ _))

/-- The segment of `get_edges`: the cached one or a located one. -/
def segment (r : EpochGraphReader) (g : SegGraph) (segId label : Nat) (dir : Dir) : Nat × EpochGraphReader :=
  if r.Hit segId label then
    match dir with
    | .eout => (r.segmentCachePtr.1, r)
    | .ein => (r.segmentCachePtr.2, r)
  else r.locateSegment g segId label dir

/-- `get_edges_in_seg` (`epoch_graph_reader.cpp:55-79`) -/
def getEdgesInSeg (r : EpochGraphReader) (g : SegGraph) (segment src edgePropSize : Nat) :
    Except Fault EpochEdgeIterator :=
  let seg := g.segments segment
  if src ≥ g.vertexId ∨ segment = 0 then .ok (.empty seg)
  else
    let edgeBlock := seg.regionPtrs (src % vertexPerSeg)
    let epochTable := seg.epochTables (src % vertexPerSeg)
    if edgeBlock = 0 ∨ epochTable = 0 then .ok (.empty seg)
    else
      EpochEdgeIterator.create seg edgeBlock (g.epochBlocks epochTable) (seg.getNumEntries edgeBlock) edgePropSize
        r.readEpoch

/-- `get_edges` (`epoch_graph_reader.cpp:81-106`) -/
def getEdges (r : EpochGraphReader) (g : SegGraph) (rg : RGMapping) (src label : Nat) (dir : Dir) :
    Except ReaderFault (EpochEdgeIterator × EpochGraphReader) :=
  if src ≥ g.vertexId then .ok (.empty (g.segments 0), r)
  else do
    let located := r.segment g (src / vertexPerSeg) label dir
    let edgePropSize ← rg.getEdgePropSize label
    let it ← (r.getEdgesInSeg g located.1 src edgePropSize).mapError .walk
    return (it, located.2)

/-- Everything that an iterator of `get_edges` yields, in order. -/
def readEdges (r : EpochGraphReader) (g : SegGraph) (rg : RGMapping) (src label : Nat) (dir : Dir) :
    Except ReaderFault (List (Nat × Except Fault Bytes)) := do
  let (it, _) ← r.getEdges g rg src label dir
  (it.toList it.segHeader.blockSize).mapError .walk

/-- A reader of an epoch after some calls of `get_edges`. -/
def after (g : SegGraph) (rg : RGMapping) (readEpoch : Nat) (calls : List (Nat × Nat × Dir)) :
    Except ReaderFault EpochGraphReader :=
  calls.foldlM (fun r call => do
    let (_, r) ← r.getEdges g rg call.1 call.2.1 call.2.2
    return r) { readEpoch := readEpoch }

/-! ### The cache -/

section cache
variable {r : EpochGraphReader} {g : SegGraph} {rg : RGMapping} {segId label readEpoch : Nat} {dir : Dir}

def CacheOk (g : SegGraph) (r : EpochGraphReader) : Prop :=
  r.segmentCachePtr = (0, 0) ∨
    r.segmentCachePtr = (Fragment.locateSegment g r.segmentCacheMeta.1 r.segmentCacheMeta.2 .eout,
      Fragment.locateSegment g r.segmentCacheMeta.1 r.segmentCacheMeta.2 .ein)

theorem locateSegment_spec (h : CacheOk g r) :
    (r.locateSegment g segId label dir).1 = Fragment.locateSegment g segId label dir ∧
      CacheOk g (r.locateSegment g segId label dir).2 ∧
      (r.locateSegment g segId label dir).2.readEpoch = r.readEpoch := by
  unfold locateSegment
  dsimp only
  by_cases hnull : g.edgeLabelPtrs segId = 0
  · have hlocate : Fragment.locateSegment g segId label dir = 0 := by
      unfold Fragment.locateSegment
      rw [if_pos hnull]
    rw [if_pos hnull, hlocate]
    exact ⟨rfl, h, rfl⟩
  · rw [if_neg hnull]
    cases hfind : (g.edgeLabelBlocks (g.edgeLabelPtrs segId)).entries.find? (fun entry => entry.label == label) with
    | none =>
      have hlocate : Fragment.locateSegment g segId label dir = 0 := by
        unfold Fragment.locateSegment
        rw [if_neg hnull, hfind]
      rw [hlocate]
      exact ⟨rfl, h, rfl⟩
    | some entry =>
      have hlocate : ∀ d, Fragment.locateSegment g segId label d = entry.getPointer d := by
        intro d
        unfold Fragment.locateSegment
        rw [if_neg hnull, hfind]
      rw [hlocate]
      refine ⟨rfl, Or.inr ?_, rfl⟩
      dsimp only
      rw [hlocate, hlocate]

theorem segment_spec (h : CacheOk g r) :
    (r.segment g segId label dir).1 = Fragment.locateSegment g segId label dir ∧
      CacheOk g (r.segment g segId label dir).2 ∧ (r.segment g segId label dir).2.readEpoch = r.readEpoch := by
  unfold segment
  by_cases hhit : r.Hit segId label
  · rw [if_pos hhit]
    obtain ⟨hseg, hlabel, hptr⟩ := hhit
    rcases h with hempty | hcached
    · rw [hempty] at hptr
      simp at hptr
    · cases dir with
      | eout =>
        refine ⟨?_, Or.inr hcached, rfl⟩
        show r.segmentCachePtr.1 = _
        rw [hcached, hseg, hlabel]
      | ein =>
        refine ⟨?_, Or.inr hcached, rfl⟩
        show r.segmentCachePtr.2 = _
        rw [hcached, hseg, hlabel]
  · rw [if_neg hhit]
    exact locateSegment_spec h

theorem getEdges_cache {src : Nat} {it : EpochEdgeIterator} {r' : EpochGraphReader} (h : CacheOk g r)
    (hget : r.getEdges g rg src label dir = .ok (it, r')) : CacheOk g r' ∧ r'.readEpoch = r.readEpoch := by
  unfold getEdges at hget
  split at hget
  · rw [← (Prod.mk.inj (Except.ok.inj hget)).2]
    exact ⟨h, rfl⟩
  · dsimp only at hget
    obtain ⟨size, -, hget⟩ := bind_eq_ok hget
    obtain ⟨it', -, hget⟩ := bind_eq_ok hget
    rw [← (Prod.mk.inj (Except.ok.inj hget)).2]
    exact (segment_spec h).2

theorem after_spec {calls : List (Nat × Nat × Dir)} (h : after g rg readEpoch calls = .ok r) :
    CacheOk g r ∧ r.readEpoch = readEpoch := by
  have hrun := @foldlM_invariant _ _ _ (fun (r : EpochGraphReader) (call : Nat × Nat × Dir) => do
      let (_, r) ← r.getEdges g rg call.1 call.2.1 call.2.2
      return r) (fun _ r => CacheOk g r ∧ r.readEpoch = readEpoch) (fun _ => True) [] calls
    { readEpoch := readEpoch } ⟨Or.inl rfl, rfl⟩ ?_
  · exact hrun.of_ok h
  · intro before call more r _ hr
    cases hget : r.getEdges g rg call.1 call.2.1 call.2.2 with
    | error e => trivial
    | ok x =>
      obtain ⟨hcache, hepoch⟩ := getEdges_cache hr.1 hget
      exact ⟨hcache, hepoch.trans hr.2⟩

end cache

end EpochGraphReader

/-! ### The walk -/

section walk
variable {tracked : Prop} {stride : Nat} {seg : VegitoSegment} {edges : List Edge}
  {it : EpochEdgeIterator} {b : Block} {rest : List Block} {k : Nat}

def Yields (edgePropSize stride : Nat) (edge : Edge) (value : Nat × Except Fault Bytes) : Prop :=
  value.1 = edge.dst ∧ (edgePropSize = stride → value.2 = .ok edge.data) ∧
    ∀ data, value.2 = .ok data → data.length = edgePropSize

/-- The iterator stands on block `b` in front of the blocks `rest`, and `k` edges are ahead. -/
structure Ahead (tracked : Prop) (stride : Nat) (seg : VegitoSegment) (edges : List Edge)
    (it : EpochEdgeIterator) (b : Block) (rest : List Block) (k : Nat) : Prop where
  segHeader : it.segHeader = seg
  header : it.header = b.pointer seg.head
  offset : it.edgePropOffset = b.slot
  chain : ChainOk tracked stride seg (b :: rest)
  edges : chainEdges (b :: rest) <+: edges
  remaining : it.remaining ≤ b.edges.length
  position : k = (chainEdges rest).length + it.remaining
  filled : ∀ c ∈ rest, c.edges ≠ []
  readable : ∀ c ∈ b :: rest, Readable tracked stride seg (c.pointer seg.head) c

theorem length_pos_of_filled {c : Block} (hfilled : ∀ d ∈ c :: rest, d.edges ≠ []) : 0 < c.edges.length :=
  List.length_pos_iff.mpr (hfilled c List.mem_cons_self)

theorem valid_of_remaining (h : it.remaining ≠ 0) : it.valid = (true, it) := by
  unfold EpochEdgeIterator.valid
  exact if_neg h

theorem Ahead.valid (h : Ahead tracked stride seg edges it b rest k) :
    (k = 0 → it.valid.1 = false) ∧
      (0 < k → it.valid.1 = true ∧ it.valid.2.edgePropSize = it.edgePropSize ∧ it.valid.2.remaining ≠ 0 ∧
        ∃ b' rest', Ahead tracked stride seg edges it.valid.2 b' rest' k) := by
  have hposition := h.position
  by_cases hrem : it.remaining = 0
  · have hvalid : it.valid = it.switchBlock := if_pos hrem
    have hprev : it.segHeader.getPrevPointer it.header = chainPtr seg.head rest := by
      rw [h.segHeader, h.header, h.chain.1.getPrevPointer]
    have hheader : it.header ≠ 0 := by
      rw [h.header]
      exact Block.pointer_ne_zero _ _
    rw [hvalid]
    unfold EpochEdgeIterator.switchBlock
    rw [if_neg hheader, hprev]
    cases hrest : rest with
    | nil =>
      rw [hrest] at hposition
      have hzero : k = 0 := by
        rw [hposition, hrem]
        rfl
      exact ⟨fun _ => rfl, fun hpos => absurd hzero (Nat.pos_iff_ne_zero.mp hpos)⟩
    | cons c older =>
      rw [hrest] at hposition
      have hne : chainPtr seg.head (c :: older) ≠ 0 := Block.pointer_ne_zero _ _
      have hfilled := h.filled
      have hchain := h.chain.2.2.2.2
      have hreadable := h.readable
      have hedges := (List.prefix_append _ _).trans h.edges
      rw [hrest] at hfilled hchain hreadable hedges
      have hpos := length_pos_of_filled hfilled
      have hnum : it.segHeader.getNumEntries (chainPtr seg.head (c :: older)) = c.edges.length := by
        rw [h.segHeader]
        exact hchain.1.getNumEntries
      have hlen : (chainEdges (c :: older)).length = (chainEdges older).length + c.edges.length := by
        simp only [chainEdges, List.length_append]
      rw [if_neg hne]
      refine ⟨fun hzero => by omega, fun _ => ⟨rfl, rfl, ?_, c, older, ?_⟩⟩
      · dsimp only
        omega
      · refine ⟨h.segHeader, rfl, ?_, hchain, hedges, Nat.le_of_eq hnum, ?_, ?_, ?_⟩
        · dsimp only
          rw [h.segHeader]
          exact seg.getAllocatedEdgeNum_pointer c
        · dsimp only
          omega
        · exact fun d hd => hfilled d (List.mem_cons_of_mem _ hd)
        · exact fun d hd => hreadable d (List.mem_cons_of_mem _ hd)
  · rw [valid_of_remaining hrem]
    exact ⟨fun hzero => by omega, fun _ => ⟨rfl, rfl, hrem, b, rest, h⟩⟩

theorem Ahead.yields (h : Ahead tracked stride seg edges it b rest (k + 1)) (hrem : it.remaining ≠ 0)
    (htracked : tracked) : ∃ edge, edges[k]? = some edge ∧
      Yields it.edgePropSize stride edge (it.dstId.1, it.edgeData) := by
  have hposition := h.position
  have hle := h.remaining
  have hlt : it.remaining - 1 < b.edges.length := by omega
  have hk : k = (chainEdges rest).length + (it.remaining - 1) := by omega
  have hedge := getElem_of_chain h.edges hlt
  rw [← hk] at hedge
  refine ⟨_, hedge, ?_, ?_, ?_⟩
  · unfold EpochEdgeIterator.dstId
    rw [valid_of_remaining hrem]
    show it.segHeader.getEntry it.header (it.remaining - 1) = _
    rw [h.segHeader, h.header]
    exact h.chain.1.getEntry _ hlt
  · intro hsize
    obtain ⟨value, hvalue, -, hdata⟩ := (h.readable b List.mem_cons_self).getProperty hlt (Nat.le_of_eq hsize)
      fun _ => hsize
    have hidx : it.edgePropOffset + it.remaining - 1 = b.slot + (it.remaining - 1) := by
      rw [h.offset]
      omega
    show it.edgeData = _
    unfold EpochEdgeIterator.edgeData
    rw [h.segHeader, hidx, hvalue, hdata htracked]
  · intro data hdata
    obtain ⟨addr, -, hread⟩ := bind_eq_ok hdata
    rw [← Except.ok.inj hread, read_length]

theorem Ahead.next (h : Ahead tracked stride seg edges it b rest (k + 1)) (hrem : it.remaining ≠ 0) :
    Ahead tracked stride seg edges it.next b rest k := by
  have hposition := h.position
  have hle := h.remaining
  refine ⟨h.segHeader, h.header, h.offset, h.chain, h.edges, ?_, ?_, h.filled, h.readable⟩
  · show it.remaining - 1 ≤ _
    omega
  · show k = _ + (it.remaining - 1)
    omega

theorem toList_yields {fuel : Nat} (h : Ahead tracked stride seg edges it b rest k) (htracked : tracked)
    (hfuel : k ≤ fuel) :
    Ensures (it.toList fuel) (List.Forall₂ (Yields it.edgePropSize stride) (edges.take k).reverse) Never := by
  induction fuel generalizing it b rest k with
  | zero =>
    have hzero : k = 0 := Nat.le_zero.mp hfuel
    have hend := h.valid.1 hzero
    rw [hzero]
    unfold EpochEdgeIterator.toList
    rw [if_neg (by simp [hend])]
    exact .nil
  | succ fuel ih =>
    cases k with
    | zero =>
      have hend := h.valid.1 rfl
      unfold EpochEdgeIterator.toList
      rw [if_neg (by simp [hend])]
      exact .nil
    | succ k =>
      obtain ⟨hvalid, hsize, hrem, b', rest', hat⟩ := h.valid.2 (Nat.succ_pos k)
      obtain ⟨edge, hedge, hyields⟩ := hat.yields hrem htracked
      have hdst : it.valid.2.dstId.2 = it.valid.2 := by
        unfold EpochEdgeIterator.dstId
        rw [valid_of_remaining hrem]
        rfl
      have hnext := hat.next hrem
      have htake : (edges.take (k + 1)).reverse = edge :: (edges.take k).reverse := by
        rw [List.take_add_one, hedge, List.reverse_append]
        rfl
      unfold EpochEdgeIterator.toList
      rw [if_pos hvalid, htake]
      dsimp only
      rw [hdst]
      refine Ensures.bind (ih hnext (Nat.le_of_succ_le_succ hfuel)) ?_
      intro values hvalues
      have hsame : it.valid.2.next.edgePropSize = it.edgePropSize := hsize
      rw [hsame] at hvalues
      rw [hsize] at hyields
      exact .cons hyields hvalues

theorem toList_of_null (hheader : it.header = 0) (hrem : it.remaining = 0) (fuel : Nat) : it.toList fuel = .ok [] := by
  have hvalid : it.valid.1 = false := by
    unfold EpochEdgeIterator.valid EpochEdgeIterator.switchBlock
    rw [if_pos hrem, if_pos hheader]
  cases fuel with
  | zero => simp [EpochEdgeIterator.toList, hvalid]
  | succ fuel => simp [EpochEdgeIterator.toList, hvalid]

/-- A fresh iterator: without edges, or in front of the newest visible one. -/
structure Opened (tracked : Prop) (stride : Nat) (seg : VegitoSegment) (edges : List Edge) (count edgePropSize : Nat)
    (it : EpochEdgeIterator) : Prop where
  segHeader : it.segHeader = seg
  size : it.edgePropSize = edgePropSize
  state : (count = 0 ∧ it.header = 0 ∧ it.remaining = 0) ∨
    ∃ b rest, Ahead tracked stride seg edges it b rest count

theorem epochIterator_create {log : List LogEntry} {table : EpochBlock}
    (hchain : ChainOk tracked stride seg (b :: rest)) (hedges : chainEdges (b :: rest) = log.map LogEntry.edge)
    (htable : EpochOk table log) (hfilled : ∀ c ∈ rest, c.edges ≠ [])
    (hreadable : ∀ c ∈ b :: rest, Readable tracked stride seg (c.pointer seg.head) c) (edgePropSize readEpoch : Nat) :
    Ensures (EpochEdgeIterator.create seg (b.pointer seg.head) table b.edges.length edgePropSize readEpoch)
      (Opened tracked stride seg (log.map LogEntry.edge) (upToEpoch readEpoch log).length edgePropSize) Never := by
  have hend := readEnd_spec hchain hedges htable readEpoch
  unfold EpochEdgeIterator.create
  dsimp only
  cases hcase : EdgeIterator.findReadEnd readEpoch none table.entries with
  | nothing =>
    rw [hcase] at hend
    exact ⟨rfl, rfl, Or.inl ⟨hend, rfl, rfl⟩⟩
  | whole =>
    rw [hcase] at hend
    exact ⟨rfl, rfl,
        Or.inr ⟨b, rest, rfl, rfl, seg.getAllocatedEdgeNum_pointer b, hchain, by rw [hedges], Nat.le_refl _,
      hend, hfilled, hreadable⟩⟩
  | upTo offset =>
    rw [hcase] at hend
    obtain ⟨hoff, hwalk⟩ := hend
    refine Ensures.bind hwalk ?_
    rintro pointer ⟨b', rest', hsuf, rfl, hnum, hch, hpre, hlt, hle⟩
    have htail : rest' <:+ rest := by
      rcases List.suffix_cons_iff.mp hsuf with heq' | hsuf'
      · rw [(List.cons.inj heq').2]
      · exact (List.suffix_cons _ _).trans hsuf'
    refine ⟨rfl, rfl, Or.inr ⟨b', rest', rfl, rfl, seg.getAllocatedEdgeNum_pointer b', hch, hpre, ?_, ?_, ?_, ?_⟩⟩
    · show offset - seg.getPrevNumEntries (b'.pointer seg.head) ≤ _
      omega
    · show _ = _ + (offset - seg.getPrevNumEntries (b'.pointer seg.head))
      omega
    · exact fun c hc => hfilled c (htail.subset hc)
    · exact fun c hc => hreadable c (hsuf.subset hc)

end walk

/-! ### A list -/

/-- The epoch table of a list has an epoch up to `e`. -/
def HasEdgeUpTo (g : SegGraph) (v label : Nat) (dir : Dir) (e : Nat) : Prop :=
  let segment := locateSegment g (v / vertexPerSeg) label dir
  let table := (g.segments segment).epochTables (v % vertexPerSeg)
  segment ≠ 0 ∧ table ≠ 0 ∧ ∃ entry ∈ (g.epochBlocks table).entries, entry.epoch ≤ e

theorem visibleCount_pos {e total : Nat} {entries : List EpochEntry} (htotal : 0 < total)
    (hoffsets : ∀ entry ∈ entries.dropLast, 0 < entry.offset) :
    0 < visibleCount e total entries ↔ ∃ entry ∈ entries, entry.epoch ≤ e := by
  induction entries generalizing total with
  | nil => simp [visibleCount]
  | cons entry older ih =>
    simp only [visibleCount, List.exists_mem_cons_iff]
    by_cases he : entry.epoch ≤ e
    · rw [if_pos he]
      exact ⟨fun _ => Or.inl he, fun _ => htotal⟩
    · rw [if_neg he]
      cases older with
      | nil => simp [visibleCount, he]
      | cons entry' older =>
        rw [List.dropLast_cons_of_ne_nil (by simp)] at hoffsets
        obtain ⟨hpos, hrest⟩ := List.forall_mem_cons.mp hoffsets
        rw [ih hpos hrest]
        exact ⟨Or.inr, fun h => h.resolve_left he⟩

section list
variable {stride : Nat → Nat} {g : SegGraph} {own : Nat → Option Owner} {log : Log} {v l e : Nat} {d : Dir}

theorem hasEdgeUpTo_iff (h : GraphInv (fun _ => True) stride g own log NoHole) :
    HasEdgeUpTo g v l d e ↔ upToEpoch e (log v l d) ≠ [] := by
  have hidx : v % vertexPerSeg < vertexPerSeg := Nat.mod_lt _ (by unfold vertexPerSeg; omega)
  have hv := vertexOf_div_mod v
  unfold HasEdgeUpTo
  rw [locateSegment_eq]
  dsimp only
  by_cases h0 : g.locateSegment (v / vertexPerSeg) l d = 0
  · have hnil := h.absent _ _ _ h0 _ hidx
    rw [hv] at hnil
    rw [hnil]
    exact ⟨fun hhas => absurd h0 hhas.1, fun hne => absurd rfl hne⟩
  · obtain ⟨C, hinv, hlists⟩ := h.holds _ _ _ h0
    have hlist := hlists _ hidx
    dsimp only at hlist
    rw [hv] at hlist
    by_cases hnil : log v l d = []
    · rw [hnil]
      exact ⟨fun hhas => absurd (hlist.noTable hnil) hhas.2.1, fun hne => absurd rfl hne⟩
    · obtain ⟨htable, -, hok⟩ := hlist.table hnil
      rw [← List.length_pos_iff, ← hok.count e, visibleCount_pos (List.length_pos_iff.mpr hnil) hok.offsets]
      exact ⟨fun hhas => hhas.2.2, fun hentry => ⟨h0, htable, hentry⟩⟩

theorem readEdges_spec {r : EpochGraphReader} {rg : RGMapping} {size : Nat}
    (h : GraphInv (fun _ => True) stride g own log NoHole) (hcache : r.CacheOk g) (hv : v < g.vertexId)
    (hsize : rg.getEdgePropSize l = .ok size) :
    Ensures (r.readEdges g rg v l d)
      (List.Forall₂ (Yields size (stride l))
        (((log v l d).map LogEntry.edge).take (upToEpoch r.readEpoch (log v l d)).length).reverse) Never := by
  have hidx : v % vertexPerSeg < vertexPerSeg := Nat.mod_lt _ (by unfold vertexPerSeg; omega)
  have hvertex := vertexOf_div_mod v
  have hempty : ∀ seg, log v l d = [] → Ensures
      (((EpochEdgeIterator.empty seg).toList seg.blockSize).mapError ReaderFault.walk)
      (List.Forall₂ (Yields size (stride l))
        (((log v l d).map LogEntry.edge).take (upToEpoch r.readEpoch (log v l d)).length).reverse) Never := by
    intro seg hnil
    rw [hnil, toList_of_null rfl rfl]
    exact .nil
  unfold EpochGraphReader.readEdges EpochGraphReader.getEdges
  rw [if_neg (Nat.not_le.mpr hv), hsize]
  show Ensures (((r.getEdgesInSeg g (r.segment g (v / vertexPerSeg) l d).1 v size).mapError ReaderFault.walk >>=
    fun it => .ok (it, (r.segment g (v / vertexPerSeg) l d).2)) >>= _) _ _
  rw [(EpochGraphReader.segment_spec hcache).1, locateSegment_eq]
  unfold EpochGraphReader.getEdgesInSeg
  dsimp only
  by_cases h0 : g.locateSegment (v / vertexPerSeg) l d = 0
  · rw [if_pos (Or.inr h0)]
    have hnil := h.absent _ _ _ h0 _ hidx
    rw [hvertex] at hnil
    exact hempty _ hnil
  · rw [if_neg (not_or.mpr ⟨Nat.not_le.mpr hv, h0⟩)]
    obtain ⟨C, hinv, hlists⟩ := h.holds _ _ _ h0
    have hlist := hlists _ hidx
    dsimp only at hlist
    rw [hvertex] at hlist
    generalize g.segments (g.locateSegment (v / vertexPerSeg) l d) = seg at hinv hlist ⊢
    by_cases hnil : log v l d = []
    · rw [if_pos (Or.inr (hlist.noTable hnil))]
      exact hempty _ hnil
    · obtain ⟨htable, -, hok⟩ := hlist.table hnil
      have hregion := hinv.region (v % vertexPerSeg)
      have hchain := hinv.chain (v % vertexPerSeg)
      have hbound := hinv.edges_length_le hidx
      have hbytes := hinv.allocated_bytes
      have hread : ∀ c ∈ C (v % vertexPerSeg), Readable True (stride l) seg (c.pointer seg.head) c :=
        fun c hc => hinv.readable hc
      have hedges := hlist.edges
      cases hC : C (v % vertexPerSeg) with
      | nil =>
        rw [hC] at hedges
        exact absurd (List.map_eq_nil_iff.mp hedges.symm) hnil
      | cons b rest =>
        rw [hC] at hregion hchain hread hedges
        have hptr : seg.regionPtrs (v % vertexPerSeg) = b.pointer seg.head := hregion
        rw [hptr, if_neg (not_or.mpr ⟨Block.pointer_ne_zero _ _, htable⟩), hchain.1.getNumEntries]
        have hopened := epochIterator_create hchain hedges hok (hlist.older b rest hC) hread size r.readEpoch
        have hcreated := @Ensures.mapError _ _ _ ReaderFault.walk _ _ Never hopened
        have hopens : ∀ it, Opened True (stride l) seg ((log v l d).map LogEntry.edge)
            (upToEpoch r.readEpoch (log v l d)).length size it →
            Ensures (Except.ok (it, (r.segment g (v / vertexPerSeg) l d).2) : Except ReaderFault _)
              (fun x : EpochEdgeIterator × EpochGraphReader => Opened True (stride l) seg
                ((log v l d).map LogEntry.edge) (upToEpoch r.readEpoch (log v l d)).length size x.1) Never :=
          fun it hit => hit
        refine Ensures.bind (Ensures.bind hcreated hopens) ?_
        rintro ⟨it, r'⟩ hit
        dsimp only at hit ⊢
        rcases hit.state with ⟨hzero, hheader, hrem⟩ | ⟨b', rest', hahead⟩
        · rw [toList_of_null hheader hrem, hzero]
          exact .nil
        · have hfilter : (upToEpoch r.readEpoch (log v l d)).length ≤ (log v l d).length := List.length_filter_le _ _
          have hlen := congrArg List.length hlist.edges
          rw [List.length_map] at hlen
          have hfuel : (upToEpoch r.readEpoch (log v l d)).length ≤ it.segHeader.blockSize := by
            rw [hit.segHeader]
            omega
          have hyields := toList_yields hahead trivial hfuel
          rw [hit.size] at hyields
          exact @Ensures.mapError _ _ _ ReaderFault.walk _ _ Never hyields

end list

/-! ### The two readers -/

namespace RGMapping

section mapping
variable {rg : RGMapping} {edgeLabel edgePropSize vlabelNum label : Nat} {dtypes : List PropertyDataType}
  {edgeDtypes : List (List PropertyDataType)}

theorem defineNnEdge_length : edgeLabel + 1 ≤ (rg.defineNnEdge edgeLabel edgePropSize).edgePropSizes.length ∧
    rg.edgePropSizes.length ≤ (rg.defineNnEdge edgeLabel edgePropSize).edgePropSizes.length := by
  unfold defineNnEdge
  rw [List.length_set, List.length_append, List.length_replicate]
  omega

theorem defineNnEdge_getD : (rg.defineNnEdge edgeLabel edgePropSize).edgePropSizes.getD label 0 =
    if label = edgeLabel then edgePropSize else rg.edgePropSizes.getD label 0 := by
  have hlength := (@defineNnEdge_length rg edgeLabel edgePropSize).1
  unfold defineNnEdge at hlength ⊢
  rw [List.length_set] at hlength
  simp only [List.getD_eq_getElem?_getD]
  by_cases hlabel : label = edgeLabel
  · rw [hlabel, List.getElem?_set_self (by omega), if_pos rfl]
    rfl
  · rw [List.getElem?_set_ne (fun h => hlabel h.symm), if_neg hlabel, List.getElem?_append]
    split
    · rfl
    · rename_i hout
      rw [List.getElem?_eq_none (Nat.not_lt.mp hout), List.getElem?_replicate]
      split <;> rfl

theorem ofSchema_append : ofSchema vlabelNum (edgeDtypes ++ [dtypes]) =
    (ofSchema vlabelNum edgeDtypes).defineNnEdge (edgeDtypes.length + vlabelNum) dtypes.length := by
  unfold ofSchema
  rw [List.zipIdx_append, List.foldl_append]
  simp

theorem ofSchema_getD : (ofSchema vlabelNum edgeDtypes).edgePropSizes.getD label 0 =
    if vlabelNum ≤ label then (edgeDtypes.getD (label - vlabelNum) []).length else 0 := by
  induction edgeDtypes using List.reverseRecOn with
  | nil =>
    have hinit : (ofSchema vlabelNum []).edgePropSizes.getD label 0 = 0 := by
      show (List.replicate 128 0).getD label 0 = 0
      rw [List.getD_eq_getElem?_getD, List.getElem?_replicate]
      split <;> rfl
    rw [hinit]
    simp
  | append_singleton edgeDtypes dtypes ih =>
    rw [ofSchema_append, defineNnEdge_getD, ih]
    simp only [List.getD_eq_getElem?_getD, List.getElem?_append]
    by_cases hlast : label = edgeDtypes.length + vlabelNum
    · rw [if_pos hlast, if_pos (by omega), if_neg (by omega)]
      simp [hlast]
    · rw [if_neg hlast]
      by_cases hle : vlabelNum ≤ label
      · rw [if_pos hle, if_pos hle]
        split
        · rfl
        · rename_i hout
          rw [List.getElem?_eq_none (Nat.not_lt.mp hout), List.getElem?_eq_none (by simp; omega)]
      · rw [if_neg hle, if_neg hle]

theorem length_ofSchema (h : edgeDtypes ≠ []) :
    vlabelNum + edgeDtypes.length ≤ (ofSchema vlabelNum edgeDtypes).edgePropSizes.length := by
  cases edgeDtypes using List.reverseRecOn with
  | nil => exact absurd rfl h
  | append_singleton edgeDtypes dtypes =>
    rw [ofSchema_append, List.length_append, List.length_singleton]
    have hle := (@defineNnEdge_length (ofSchema vlabelNum edgeDtypes) (edgeDtypes.length + vlabelNum)
      dtypes.length).1
    omega

theorem getEdgePropSize_ofSchema (h : label < edgeDtypes.length) :
    (ofSchema vlabelNum edgeDtypes).getEdgePropSize label =
    .ok (if vlabelNum ≤ label then (edgeDtypes.getD (label - vlabelNum) []).length else 0) := by
  have hlength := @length_ofSchema vlabelNum edgeDtypes (List.ne_nil_of_length_pos (by omega))
  have hlt : label < (ofSchema vlabelNum edgeDtypes).edgePropSizes.length := by omega
  rw [← ofSchema_getD]
  unfold getEdgePropSize
  rw [List.getD_eq_getElem?_getD, List.getElem?_eq_getElem hlt]
  rfl

end mapping

end RGMapping

def mappingOf (s : GraphStore) : RGMapping := .ofSchema s.labels.length s.edgeDtypes

/-- The size of edge properties in the fragment, and the one that `get_edges` uses. -/
def strideOf (s : GraphStore) (elabel : Nat) : Nat := GraphStore.edgeDataSize (s.edgeDtypes.getD elabel [])

def mappedSize (s : GraphStore) (elabel : Nat) : Nat :=
  if s.labels.length ≤ elabel then (s.edgeDtypes.getD (elabel - s.labels.length) []).length else 0

def SameNeighbors (s : GraphStore) (g : SegGraph) (r : EpochGraphReader) (v elabel : Nat) (d : Dir) : Prop :=
  ∃ values edges, readAdjList g v elabel d (strideOf s elabel) r.readEpoch = .ok values ∧
    r.readEdges g (mappingOf s) v elabel d = .ok edges ∧ edges.map Prod.fst = values.map Prod.fst

def ReadersAgree (s : GraphStore) (g : SegGraph) (r : EpochGraphReader) (v elabel : Nat) (d : Dir) : Prop :=
  ∃ values, readAdjList g v elabel d (strideOf s elabel) r.readEpoch = .ok values ∧
    r.readEdges g (mappingOf s) v elabel d = .ok (values.map fun value => (value.1, .ok value.2))

theorem yields_neighbors {size stride : Nat} {edges : List Edge} {values : List (Nat × Except Fault Bytes)}
    (h : List.Forall₂ (Yields size stride) edges values) : values.map Prod.fst = edges.map Edge.dst := by
  induction h with
  | nil => rfl
  | cons hyields _ ih => rw [List.map_cons, List.map_cons, ih, hyields.1]

theorem yields_data {size stride : Nat} {edges : List Edge} {values : List (Nat × Except Fault Bytes)}
    (h : List.Forall₂ (Yields size stride) edges values) (hlength : ∀ edge ∈ edges, edge.data.length = stride) :
    values = edges.map (fun edge => (edge.dst, .ok edge.data)) ↔ size = stride ∨ edges = [] := by
  constructor
  · intro heq
    cases h with
    | nil => exact Or.inr rfl
    | @cons edge value _ _ hyields _ =>
      rw [List.map_cons] at heq
      have hvalue : value = (edge.dst, .ok edge.data) := (List.cons.inj heq).1
      have hsize := hyields.2.2 edge.data (by rw [hvalue])
      exact Or.inl (hsize.symm.trans (hlength edge List.mem_cons_self))
  · rintro (hsize | hnil)
    · clear hlength
      induction h with
      | nil => rfl
      | @cons edge value _ _ hyields _ ih =>
        rw [List.map_cons, ← ih]
        obtain ⟨dst, data⟩ := value
        rw [show dst = edge.dst from hyields.1, show data = .ok edge.data from hyields.2.1 hsize]
    · subst hnil
      cases h
      rfl

/-- In every store that added vertices and edges, the reader in the process yields the neighbours of the fragment's
reader, with a cached segment or without. It yields the same bytes exactly if the entry of the relation mapping that
it reads has the size of the label's properties, or if there is no edge to read. -/
theorem readersAgree_iff {c : StoreConfig} {sb : SchemaBuild} {lines : List (GraphStore.Draws × Record)}
    {s : GraphStore} {l : LabelStore} {r : EpochGraphReader} {calls : List (Nat × Nat × Dir)}
    {vlabel v elabel epoch : Nat} {d : Dir} (hparts : c.totalPartitions < 2 ^ 31)
    (hcap : ∀ i, (c.label i).blockSize ≤ 2 ^ 64)
    (hcounts : (∀ i, (c.label i).blockSize ≤ 2 ^ 35) ∨
      ∀ i v e, touches (partitionOf c sb) (edgesOf (lines.map Prod.snd)) i v e < 2 ^ 32)
    (hrun : lines.foldlM GraphStore.applyAdd (GraphStore.create c sb) = .ok s) (hl : s.labels[vlabel]? = some l)
    (hreader : EpochGraphReader.after l.graph (mappingOf s) epoch calls = .ok r) (hv : v < l.graph.vertexId)
    (helabel : elabel < s.edgeDtypes.length) :
    SameNeighbors s l.graph r v elabel d ∧
      (ReadersAgree s l.graph r v elabel d ↔
        mappedSize s elabel = strideOf s elabel ∨ ¬ HasEdgeUpTo l.graph v elabel d epoch) := by
  obtain ⟨logs, hgraphs⟩ := (@innerGraphs_create c sb hcap).run (partitionOf_narrow hparts) hcounts hrun
  obtain ⟨⟨own, hgraph⟩, hplain, -⟩ := hgraphs.label vlabel l hl
  obtain ⟨hcache, hepoch⟩ := EpochGraphReader.after_spec hreader
  have hstride : (partitionOf c sb).stride elabel = strideOf s elabel := hgraphs.stride elabel
  have hread := @readAdjList_spec _ _ _ _ _ hgraph v elabel d _ (Nat.le_refl _) (fun _ => rfl) r.readEpoch
  obtain ⟨values, hvalues, hreads⟩ := hread.exists_ok
  obtain ⟨edges, hedges, hyields⟩ :=
    (@readEdges_spec _ _ _ _ v elabel d _ _ _ hgraph hcache hv (RGMapping.getEdgePropSize_ofSchema helabel)).exists_ok
  have hedges : r.readEdges l.graph (mappingOf s) v elabel d = .ok edges := hedges
  have hle : (upToEpoch r.readEpoch (logs vlabel v elabel d)).length ≤
      ((logs vlabel v elabel d).map LogEntry.edge).length := by
    rw [List.length_map]
    exact List.length_filter_le _ _
  have hdata := reads_data hle (fun edge hedge => by
    obtain ⟨entry, hentry, rfl⟩ := List.mem_map.mp hedge
    exact (hplain v elabel d entry hentry).1) hreads
  rw [← List.map_reverse] at hdata
  rw [hstride] at hvalues
  have hvisible := @hasEdgeUpTo_iff _ _ _ _ v elabel epoch d hgraph
  rw [← hepoch] at hvisible ⊢
  generalize hseen : (((logs vlabel v elabel d).map LogEntry.edge).take
    (upToEpoch r.readEpoch (logs vlabel v elabel d)).length).reverse = seen at hyields hdata
  have hsizes : ∀ edge ∈ seen, edge.data.length = (partitionOf c sb).stride elabel := by
    intro edge hedge
    rw [← hseen, List.mem_reverse] at hedge
    obtain ⟨entry, hentry, rfl⟩ := List.mem_map.mp (List.mem_of_mem_take hedge)
    exact (hplain v elabel d entry hentry).2
  have hnone : seen = [] ↔ ¬ HasEdgeUpTo l.graph v elabel d r.readEpoch := by
    rw [hvisible, Decidable.not_not, ← hseen, List.reverse_eq_nil_iff, ← List.length_eq_zero_iff, List.length_take,
      Nat.min_eq_left hle, List.length_eq_zero_iff]
  have hagree := yields_data hyields hsizes
  rw [hstride, hnone] at hagree
  refine ⟨⟨values, edges, hvalues, hedges, ?_⟩, ?_⟩
  · rw [yields_neighbors hyields, hdata, List.map_map]
    rfl
  · have hmapped : values.map (fun value => (value.1, (Except.ok value.2 : Except Fault Bytes))) =
        seen.map fun edge => (edge.dst, .ok edge.data) := by
      rw [hdata, List.map_map]
      rfl
    unfold mappedSize
    rw [← hagree, ← hmapped]
    constructor
    · rintro ⟨values', hvalues', hsame⟩
      rw [hvalues] at hvalues'
      rw [hedges, ← Except.ok.inj hvalues'] at hsame
      exact Except.ok.inj hsame
    · intro hsame
      exact ⟨values, hvalues, by rw [hedges, hsame]⟩

def knowsSince : GraphMapping :=
  { vertexTypes := [{ name := "person", tableSchema := [], propInfo := [] }]
    edgeTypes := [{
      name := "knows"
      tableSchema := [("since", "int")]
      propInfo := [{ property := "since", dataField := "since", columnFamily := none }] }] }

def manyBlocks : StoreConfig :=
  { oneLabel with
    label := fun _ => { vertexCapacity := 4, blockSize := 2 ^ 30, ovVertexCapacity := 4, ovBlockSize := 2 ^ 30
                        externalIdIsString := true, blankTable := fun _ => 0 } }

def loopLines : List (GraphStore.Draws × Record) :=
  [(⟨true, true, true⟩, .addVertex { writeEpoch := 1, vid := 0, externalId := "a", props := [] }),
    (⟨true, true, true⟩, .addEdge { writeEpoch := 1, elabel := 0, srcVid := 0, dstVid := 0, srcExternalId := "a"
                                    dstExternalId := "a", eprop := ["5"] })]

theorem loopLines_run : ∃ sb s l r, initGraphSchema knowsSince = .ok sb ∧
    loopLines.foldlM GraphStore.applyAdd (GraphStore.create manyBlocks sb) = .ok s ∧ s.labels[0]? = some l ∧
    EpochGraphReader.after l.graph (mappingOf s) 1 [(0, 0, .eout)] = .ok r ∧ r.Hit 0 0 ∧ l.graph.vertexId = 1 ∧
    s.edgeDtypes.length = 1 ∧
    readAdjList l.graph 0 0 .eout (strideOf s 0) r.readEpoch = .ok [(0, [0, 5, 0, 0, 0])] ∧
    ∃ edges, r.readEdges l.graph (mappingOf s) 0 0 .eout = .ok edges ∧
      edges.map (fun edge => edge.2.toOption) = [some []] := by
  have hrun : ((initGraphSchema knowsSince).toOption.bind fun sb =>
      (loopLines.foldlM GraphStore.applyAdd (GraphStore.create manyBlocks sb)).toOption.bind fun s =>
      s.labels[0]?.bind fun l =>
      (EpochGraphReader.after l.graph (mappingOf s) 1 [(0, 0, .eout)]).toOption.bind fun r =>
      (readAdjList l.graph 0 0 .eout (strideOf s 0) r.readEpoch).toOption.bind fun values =>
      (r.readEdges l.graph (mappingOf s) 0 0 .eout).toOption.map fun edges =>
        (decide (r.Hit 0 0 ∧ l.graph.vertexId = 1 ∧ s.edgeDtypes.length = 1 ∧ values = [(0, [0, 5, 0, 0, 0])]),
          edges.map fun edge => edge.2.toOption)) = some (true, [some []]) := by
    decide +kernel
  obtain ⟨sb, hsb, hrun⟩ := Option.bind_eq_some_iff.mp hrun
  obtain ⟨s, hs, hrun⟩ := Option.bind_eq_some_iff.mp hrun
  obtain ⟨l, hl, hrun⟩ := Option.bind_eq_some_iff.mp hrun
  obtain ⟨r, hr, hrun⟩ := Option.bind_eq_some_iff.mp hrun
  obtain ⟨values, hvalues, hrun⟩ := Option.bind_eq_some_iff.mp hrun
  obtain ⟨edges, hedges, hrun⟩ := Option.map_eq_some_iff.mp hrun
  obtain ⟨hfacts, hdata⟩ := Prod.mk.inj hrun
  obtain ⟨hhit, hv, helabels, rfl⟩ := of_decide_eq_true hfacts
  exact ⟨sb, s, l, r, ok_of_toOption hsb, ok_of_toOption hs, hl, ok_of_toOption hr, hhit, hv, helabels,
    ok_of_toOption hvalues, edges, ok_of_toOption hedges, hdata⟩

/-- The other direction of the vertex, from the cache. -/
theorem readersAgree_iff_cached : ∃ s g r, r.Hit 0 0 ∧ SameNeighbors s g r 0 0 .ein ∧
    (ReadersAgree s g r 0 0 .ein ↔ mappedSize s 0 = strideOf s 0 ∨ ¬ HasEdgeUpTo g 0 0 .ein 1) := by
  obtain ⟨sb, s, l, r, -, hrun, hl, hr, hhit, hv, helabels, -⟩ := loopLines_run
  refine ⟨s, l.graph, r, hhit, ?_⟩
  exact @readersAgree_iff manyBlocks sb loopLines s l r [(0, 0, .eout)] 0 0 0 1 .ein (by decide)
    (fun i => Nat.pow_le_pow_right (by decide) (by decide))
    (Or.inl fun i => Nat.pow_le_pow_right (by decide) (by decide)) hrun hl hr (by rw [hv]; decide)
    (by rw [helabels]; decide)

/-- The edge has the number 5 for the fragment, and no bytes for the reader in the process, which has its segment
in the cache. -/
theorem readersAgree_loop : ∃ sb s l r, initGraphSchema knowsSince = .ok sb ∧
    loopLines.foldlM GraphStore.applyAdd (GraphStore.create manyBlocks sb) = .ok s ∧ s.labels[0]? = some l ∧
    EpochGraphReader.after l.graph (mappingOf s) 1 [(0, 0, .eout)] = .ok r ∧ r.Hit 0 0 ∧
    ¬ ReadersAgree s l.graph r 0 0 .eout := by
  obtain ⟨sb, s, l, r, hsb, hrun, hl, hr, hhit, -, -, hvalues, edges, hedges, hdata⟩ := loopLines_run
  refine ⟨sb, s, l, r, hsb, hrun, hl, hr, hhit, ?_⟩
  rintro ⟨values, hvalues', hedges'⟩
  rw [hvalues] at hvalues'
  rw [hedges, ← Except.ok.inj hvalues'] at hedges'
  rw [Except.ok.inj hedges'] at hdata
  exact absurd hdata (by decide)

end Gart.Fragment
