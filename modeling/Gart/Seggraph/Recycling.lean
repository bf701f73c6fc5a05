import Gart.Seggraph.GraphRun

/-!
# Recycling of replaced segments

A merge puts the segment that it replaces on a list, and `recycle_segments` gives it back to the block manager. A
run keeps the pointers that were put there and those that were freed; what the label pointers lead to stays outside
both kinds of segments.
-/

namespace Gart.Seggraph
open Gart.ByteMemory Gart.Outcome SegGraph

/-! ### The bytes that are reached -/

/-- The edge blocks of a list: the newest one, and behind each the one before it. -/
inductive VegitoSegment.Chained (seg : VegitoSegment) (idx : Nat) : Nat → Prop
  | newest : seg.regionPtrs idx ≠ 0 → seg.Chained idx (seg.regionPtrs idx)
  | previous (edgeBlock : Nat) : seg.Chained idx edgeBlock → seg.getPrevPointer edgeBlock ≠ 0 →
      seg.Chained idx (seg.getPrevPointer edgeBlock)

/-- First byte of property slot `offset` when every slot is `edgePropSize` wide. -/
def VegitoSegment.slotStart (seg : VegitoSegment) (pointer offset edgePropSize : Nat) : Nat :=
  pointer + seg.blockSize - (offset + 1) * edgePropSize

/-- The bytes from `start` up to `stop` belong to something that the label pointers lead to: a block of the manager,
an edge block, or the property slot of an entry. -/
inductive SegGraph.Reachable (edgePropSize : Nat → Nat) (g : SegGraph) : Nat → Nat → Prop
  | block (b : MemBlock) : g.Reaches b → g.Reachable edgePropSize b.pointer b.stop
  | edgeBlock (s l : Nat) (d : Dir) (idx edgeBlock : Nat) : g.locateSegment s l d ≠ 0 →
      (g.segments (g.locateSegment s l d)).Chained idx edgeBlock →
      g.Reachable edgePropSize edgeBlock
        (edgeBlock + edgeBlockHeaderSize + 2 ^ (g.segments (g.locateSegment s l d)).getOrder edgeBlock * edgeEntrySize)
  | property (s l : Nat) (d : Dir) (idx edgeBlock i : Nat) : g.locateSegment s l d ≠ 0 →
      (g.segments (g.locateSegment s l d)).Chained idx edgeBlock →
      i < (g.segments (g.locateSegment s l d)).getNumEntries edgeBlock →
      g.Reachable edgePropSize
        ((g.segments (g.locateSegment s l d)).slotStart (g.locateSegment s l d)
          ((g.segments (g.locateSegment s l d)).getAllocatedEdgeNum edgeBlock + i) (edgePropSize l))
        ((g.segments (g.locateSegment s l d)).slotStart (g.locateSegment s l d)
          ((g.segments (g.locateSegment s l d)).getAllocatedEdgeNum edgeBlock + i) (edgePropSize l) + edgePropSize l)

section layout
variable {tracked : Prop} {stride : Nat} {seg : VegitoSegment} {C : Nat → List Block} {idx edgeBlock : Nat}

theorem ChainOk.of_append {c c' : List Block} (h : ChainOk tracked stride seg (c' ++ c)) :
    ChainOk tracked stride seg c := by
  induction c' with
  | nil => exact h
  | cons b rest ih => exact ih h.2.2.2.2

theorem SegInv.chained_mem (h : SegInv tracked stride seg C) (hchained : seg.Chained idx edgeBlock) :
    ∃ newer b older, C idx = newer ++ b :: older ∧ edgeBlock = b.pointer seg.head := by
  induction hchained with
  | newest hne =>
    rw [h.region idx] at hne ⊢
    cases hC : C idx with
    | nil =>
      rw [hC] at hne
      exact absurd rfl hne
    | cons b rest => exact ⟨[], b, rest, rfl, rfl⟩
  | previous edgeBlock _ hne ih =>
    obtain ⟨newer, b, older, hC, rfl⟩ := ih
    have hchain := h.chain idx
    rw [hC] at hchain
    have hprev := hchain.of_append.1.getPrevPointer
    rw [hprev] at hne ⊢
    cases older with
    | nil => exact absurd rfl hne
    | cons b' rest => exact ⟨newer ++ [b], b', rest, by rw [hC, List.append_assoc]; rfl, rfl⟩

theorem SegInv.chained_inside (h : SegInv tracked stride seg C) (hchained : seg.Chained idx edgeBlock) :
    seg.head ≤ edgeBlock ∧
      edgeBlock + edgeBlockHeaderSize + 2 ^ seg.getOrder edgeBlock * edgeEntrySize ≤ seg.head + 2 ^ seg.order := by
  obtain ⟨newer, b, older, hC, rfl⟩ := h.chained_mem hchained
  have hmem : b ∈ C idx := by
    rw [hC]
    exact List.mem_append_right _ List.mem_cons_self
  have hchain := h.chain idx
  rw [hC] at hchain
  rw [hchain.of_append.1.getOrder]
  have hinside := h.inside idx b hmem
  have hbytes := h.allocated_bytes
  have hsize : seg.blockSize = 2 ^ seg.order := rfl
  unfold Block.stop at hinside
  unfold Block.pointer edgeBlockHeaderSize edgeEntrySize
  omega

theorem SegInv.slot_inside {i : Nat} (h : SegInv tracked stride seg C) (hchained : seg.Chained idx edgeBlock)
    (hi : i < seg.getNumEntries edgeBlock) :
    seg.head ≤ seg.slotStart seg.head (seg.getAllocatedEdgeNum edgeBlock + i) stride ∧
      seg.slotStart seg.head (seg.getAllocatedEdgeNum edgeBlock + i) stride + stride ≤ seg.head + 2 ^ seg.order := by
  obtain ⟨newer, b, older, hC, rfl⟩ := h.chained_mem hchained
  have hmem : b ∈ C idx := by
    rw [hC]
    exact List.mem_append_right _ List.mem_cons_self
  have hchain := h.chain idx
  rw [hC] at hchain
  have hwords := hchain.of_append.1
  rw [hwords.getNumEntries] at hi
  rw [seg.getAllocatedEdgeNum_pointer]
  have hroom := hwords.room
  have hinside := h.inside idx b hmem
  have hfits := h.fits
  have hsize : seg.blockSize = 2 ^ seg.order := rfl
  unfold Fits at hfits
  unfold Block.stop at hinside
  have hle : (b.slot + i + 1) * stride ≤ seg.allocatedEdgeNum * stride := Nat.mul_le_mul_right _ (by omega)
  have hone : (b.slot + i + 1) * stride = (b.slot + i) * stride + stride := Nat.succ_mul _ _
  unfold VegitoSegment.slotStart
  omega

end layout

section reached
variable {tracked : Nat → Prop} {stride : Nat → Nat} {g : SegGraph} {own : Nat → Option Owner} {log : Log}
  {hole : Nat → Nat → Dir → Prop} {start stop : Nat}

theorem GraphInv.reachable_inside (h : GraphInv tracked stride g own log hole)
    (hreach : g.Reachable stride start stop) : ∃ b, g.Reaches b ∧ b.pointer ≤ start ∧ stop ≤ b.stop := by
  cases hreach with
  | block b hb => exact ⟨b, hb, Nat.le_refl _, Nat.le_refl _⟩
  | edgeBlock s l d idx edgeBlock hne hchained =>
    obtain ⟨C, hinv, -⟩ := h.holds s l d hne
    have hin := hinv.chained_inside hchained
    rw [h.head s l d hne] at hin
    exact ⟨_, .segment s l d hne, hin.1, hin.2⟩
  | property s l d idx edgeBlock i hne hchained hi =>
    obtain ⟨C, hinv, -⟩ := h.holds s l d hne
    have hin := hinv.slot_inside hchained hi
    rw [h.head s l d hne] at hin
    exact ⟨_, .segment s l d hne, hin.1, hin.2⟩

theorem GraphInv.reaches_owner {b : MemBlock} (h : GraphInv tracked stride g own log hole) (hb : g.Reaches b) :
    ∃ o, o ≠ .retired ∧ own b.pointer = some o := by
  cases hb with
  | labels s hne => exact ⟨_, by simp, h.labels s hne⟩
  | segment s l d hne => exact ⟨_, by simp, h.owner s l d hne⟩
  | epochs s l d idx hne hidx ht =>
    obtain ⟨C, -, hlists⟩ := h.holds s l d hne
    have hlist := hlists idx hidx
    have hlog := fun hnil => ht (hlist.noTable hnil)
    exact ⟨_, by simp, (hlist.table hlog).2.1⟩

theorem GraphInv.reaches_ne_waiting {b : MemBlock} {x : Nat × Nat × Nat}
    (h : GraphInv tracked stride g own log hole) (hb : g.Reaches b) (hx : x ∈ g.segmentsToRecycle) :
    b.pointer ≠ x.1 := by
  intro heq
  obtain ⟨o, hne, hown⟩ := h.reaches_owner hb
  rw [heq, h.recycled x hx] at hown
  exact hne (Option.some.inj hown).symm

end reached

/-! ### The blocks in use -/

/-- The blocks that are reached, and the segments that wait, are handed out by the manager. -/
structure HeapOk (capacity : Nat) (g : SegGraph) (live : List MemBlock) : Prop where
  heap : Heap.Inv capacity ⟨g.blockManager, live⟩
  reached : ∀ b, g.Reaches b → b ∈ live
  waiting : ∀ x ∈ g.segmentsToRecycle, (⟨x.1, x.2.1⟩ : MemBlock) ∈ live

section heap
variable {capacity : Nat} {g g' : SegGraph} {live : List MemBlock}

theorem HeapOk.extends (h : HeapOk capacity g live) (hext : Extends g g') : ∃ live', HeapOk capacity g' live' := by
  obtain ⟨new, extra, hheap, hreach, hqueue, hextra⟩ := hext
  have hlive : ∀ b, g.Reaches b ∨ b ∈ new → b ∈ new ++ live := by
    rintro b (hb | hb)
    · exact List.mem_append_right _ (h.reached b hb)
    · exact List.mem_append_left _ hb
  refine ⟨new ++ live, hheap capacity live h.heap, fun b hb => hlive b (hreach b hb), fun x hx => ?_⟩
  rw [hqueue] at hx
  rcases List.mem_append.mp hx with hx | hx
  · exact List.mem_append_right _ (h.waiting x hx)
  · exact hlive _ (hextra x hx)

theorem heapOk_create (capacity : Nat) (undirected : List Bool) :
    HeapOk capacity (create capacity undirected) [] where
  heap := by
    have hinv := Heap.inv_init capacity
    unfold Heap.init at hinv
    simp only [create]
    exact hinv
  reached b hb := by
    cases hb with
    | labels s hne => exact absurd rfl hne
    | segment s l d hne => exact absurd (create_locate capacity undirected s l d) hne
    | epochs s l d idx hne => exact absurd (create_locate capacity undirected s l d) hne
  waiting x hx := by simp [create] at hx

theorem HeapOk.disjoint_free (h : HeapOk capacity g live) {b c : MemBlock} (hb : b ∈ live)
    (hc : c.pointer ∈ g.blockManager.freeBlocks c.order) : b.Disjoint c :=
  h.heap.laid.disjoint b c (Or.inl hb) (Or.inr hc) fun heq => h.heap.not_free b hb (by rw [heq]; exact hc)

theorem HeapOk.disjoint_live (h : HeapOk capacity g live) {b c : MemBlock} (hb : b ∈ live) (hc : c ∈ live)
    (hne : b.pointer ≠ c.pointer) : b.Disjoint c :=
  h.heap.laid.disjoint b c (Or.inl hb) (Or.inl hc) fun heq => hne (congrArg MemBlock.pointer heq)

theorem Heap.inv_frees {bm : BlockManager} {old : List (Nat × Nat × Nat)} (hinv : Heap.Inv capacity ⟨bm, live⟩)
    (hold : ∀ x ∈ old, (⟨x.1, x.2.1⟩ : MemBlock) ∈ live) (hnodup : (old.map Prod.fst).Nodup) :
    ∃ live', Heap.Inv capacity ⟨old.foldl (fun bm s => bm.free s.1 s.2.1) bm, live'⟩ ∧
      ∀ b ∈ live, b.pointer ∉ old.map Prod.fst → b ∈ live' := by
  induction old generalizing bm live with
  | nil => exact ⟨live, hinv, fun b hb _ => hb⟩
  | cons x rest ih =>
    rw [List.map_cons, List.nodup_cons] at hnodup
    have hkeeps : ∀ b ∈ live, b.pointer ≠ x.1 → b ∈ live.erase ⟨x.1, x.2.1⟩ := fun b hb hne =>
      (List.mem_erase_of_ne fun heq => hne (congrArg MemBlock.pointer heq)).mpr hb
    have hfree := Heap.inv_free hinv (hold x List.mem_cons_self)
    obtain ⟨live', hinv', hlive'⟩ := ih hfree (fun y hy => hkeeps _ (hold y (List.mem_cons_of_mem _ hy)) fun heq =>
      hnodup.1 (heq ▸ List.mem_map_of_mem hy)) hnodup.2
    refine ⟨live', hinv', fun b hb hnot => ?_⟩
    rw [List.map_cons, List.mem_cons, not_or] at hnot
    exact hlive' b (hkeeps b hb hnot.1) hnot.2

end heap

/-! ### A run -/

inductive SegCall
  | newVertex
  | putEdge (writeEpochId src label : Nat) (dir : Dir) (dst : UInt64) (edgeData : Bytes)
  | recycleSegments (epochId : Nat)

/-- A graph with the pointers that were put on its list so far, and those that were given back. -/
structure RecycleRun where
  graph : SegGraph
  queued : List Nat
  freed : List Nat

namespace RecycleRun

def waiting (t : RecycleRun) : List Nat := t.graph.segmentsToRecycle.map Prod.fst

end RecycleRun

namespace SegCall

def run (t : RecycleRun) : SegCall → Except Stop RecycleRun
  | newVertex => .ok { t with graph := t.graph.newVertex }
  | putEdge writeEpochId src label dir dst edgeData => do
    let g ← t.graph.putEdge writeEpochId src label dir dst.toNat edgeData
    .ok { t with
      graph := g
      queued := t.queued ++ (g.segmentsToRecycle.drop t.graph.segmentsToRecycle.length).map Prod.fst }
  | recycleSegments epochId =>
    .ok { t with
      graph := t.graph.recycleSegments epochId
      freed := t.freed ++
        (t.graph.segmentsToRecycle.filter fun s => s.2.2 + lagEpochNumber < epochId).map Prod.fst }

/-- The call adds an edge to the list of `(v, l, d)`. -/
def OnList (undirected : Nat → Bool) (v l : Nat) (d : Dir) : SegCall → Prop
  | putEdge _ src label dir _ _ => v = src ∧ l = label ∧ SameList (undirected label) dir d
  | _ => False

instance (undirected : Nat → Bool) (v l : Nat) (d : Dir) : DecidablePred (OnList undirected v l d)
  | newVertex => inferInstanceAs (Decidable False)
  | putEdge _ src label dir _ _ => inferInstanceAs (Decidable (v = src ∧ l = label ∧ SameList (undirected label) dir d))
  | recycleSegments _ => inferInstanceAs (Decidable False)

/-- The data of an edge has the property size of its label; or it is smaller, a merge has room for the property size,
and the segment has no place that only the smaller size fits into. -/
def Fitting (edgePropSize : Nat → Nat) (g : SegGraph) : SegCall → Prop
  | putEdge _ src label dir _ edgeData => edgeData.length = edgePropSize label ∨
      edgeData.length ≤ edgePropSize label ∧ edgePropSize label ≤ 16382 ∧
        (g.locateSegment (src / vertexPerSeg) label dir ≠ 0 →
          NoGap (edgePropSize label) edgeData.length
            (g.segments (g.locateSegment (src / vertexPerSeg) label dir)) (src % vertexPerSeg))
  | _ => True

end SegCall

/-- A run on a new graph, up to the first call that does not complete. -/
def runSegCalls (capacity : Nat) (undirected : List Bool) (calls : List SegCall) : Except Stop RecycleRun :=
  calls.foldlM SegCall.run ⟨create capacity undirected, [], []⟩

def putsOn (undirected : Nat → Bool) (calls : List SegCall) (v l : Nat) (d : Dir) : Nat :=
  calls.countP fun call => call.OnList undirected v l d

def FittingRun (edgePropSize : Nat → Nat) (capacity : Nat) (undirected : List Bool) (calls : List SegCall) : Prop :=
  ∀ before call after t, calls = before ++ call :: after → runSegCalls capacity undirected before = .ok t →
    call.Fitting edgePropSize t.graph

/-- Segments go on the list once and are given back once, and what is reached is apart from those that wait and from
everything that was given back and not handed out again. -/
structure RecyclingSafe (edgePropSize : Nat → Nat) (t : RecycleRun) : Prop where
  balance : t.queued.Perm (t.freed ++ t.waiting)
  once : t.waiting.Nodup
  kept : ∀ x ∈ t.graph.segmentsToRecycle, ∀ b : MemBlock, b.pointer ∈ t.graph.blockManager.freeBlocks b.order →
    MemBlock.Disjoint ⟨x.1, x.2.1⟩ b
  reached : ∀ start stop, t.graph.Reachable edgePropSize start stop → ∀ b : MemBlock,
    b.pointer ∈ t.graph.blockManager.freeBlocks b.order ∨ (∃ x ∈ t.graph.segmentsToRecycle, b = ⟨x.1, x.2.1⟩) →
      stop ≤ b.pointer ∨ b.stop ≤ start

/-! ### What holds along a run -/

structure RecycleInv (stride : Nat → Nat) (capacity : Nat) (undirected : List Bool) (calls : List SegCall)
    (t : RecycleRun) : Prop where
  graph : ∃ own log, GraphInv (fun _ => False) stride t.graph own log NoHole ∧
    ∀ v l d, (log v l d).length = putsOn (fun l => undirected.getD l false) calls v l d
  heap : ∃ live, HeapOk capacity t.graph live
  undirected : t.graph.edgeIsUndirected = undirected
  balance : t.queued.Perm (t.freed ++ t.waiting)

section run
variable {stride : Nat → Nat} {capacity : Nat} {undirected : List Bool} {calls : List SegCall} {t : RecycleRun}

theorem recycleInv_create (hcap : capacity ≤ 2 ^ 64) :
    RecycleInv stride capacity undirected [] ⟨create capacity undirected, [], []⟩ where
  graph := ⟨_, emptyLog, create_inv capacity undirected hcap, fun _ _ _ => rfl⟩
  heap := ⟨[], heapOk_create capacity undirected⟩
  undirected := rfl
  balance := .refl _

theorem putsOn_append (call : SegCall) (v l : Nat) (d : Dir) (und : Nat → Bool) :
    putsOn und (calls ++ [call]) v l d = putsOn und calls v l d + if call.OnList und v l d then 1 else 0 := by
  unfold putsOn
  rw [List.countP_append, List.countP_singleton]
  simp

theorem putsOn_of_on (call : SegCall) {und : Nat → Bool} {v l : Nat} {d : Dir} (hon : call.OnList und v l d) :
    putsOn und (calls ++ [call]) v l d = putsOn und calls v l d + 1 := by
  rw [putsOn_append, if_pos hon]

theorem putsOn_of_not (call : SegCall) {und : Nat → Bool} {v l : Nat} {d : Dir} (hnot : ¬ call.OnList und v l d) :
    putsOn und (calls ++ [call]) v l d = putsOn und calls v l d := by
  rw [putsOn_append, if_neg hnot, Nat.add_zero]

theorem RecycleInv.newVertex (h : RecycleInv stride capacity undirected calls t) :
    RecycleInv stride capacity undirected (calls ++ [.newVertex]) { t with graph := t.graph.newVertex } := by
  obtain ⟨own, log, hgraph, hlog⟩ := h.graph
  obtain ⟨live, hheap⟩ := h.heap
  have hinv := newVertex_inv hgraph
  obtain ⟨segId, heq, -, -⟩ := newVertex_eq hgraph
  rw [heq] at hinv ⊢
  refine ⟨⟨own, log, hinv, fun v l d => ?_⟩, ⟨live, hheap.heap, fun b hb => hheap.reached b ?_, hheap.waiting⟩,
    h.undirected, h.balance⟩
  · rw [hlog, putsOn_of_not .newVertex fun hon => hon]
  · cases hb with
    | labels s hne => exact .labels s hne
    | segment s l d hne => exact .segment s l d hne
    | epochs s l d idx hne hidx ht => exact .epochs s l d idx hne hidx ht

theorem RecycleInv.putEdge {w src label : Nat} {dir : Dir} {dst : UInt64} {data : Bytes}
    (h : RecycleInv stride capacity undirected calls t)
    (hfit : (SegCall.putEdge w src label dir dst data).Fitting stride t.graph)
    (hcount : capacity ≤ 2 ^ 35 ∨ ∀ v l d, putsOn (fun l => undirected.getD l false)
      (calls ++ [.putEdge w src label dir dst data]) v l d < 2 ^ 32) :
    Ensures ((SegCall.putEdge w src label dir dst data).run t)
      (RecycleInv stride capacity undirected (calls ++ [.putEdge w src label dir dst data])) fun _ => True := by
  obtain ⟨own, log, hgraph, hlog⟩ := h.graph
  obtain ⟨live, hheap⟩ := h.heap
  by_cases hsrc : src < t.graph.vertexId
  · obtain ⟨seen, hseen⟩ := exists_seenFrom w (log src label dir)
    have hund : t.graph.isEdgeUndirected label = undirected.getD label false := by
      unfold isEdgeUndirected
      rw [h.undirected]
    have hwidth : data.length ≤ stride label := hfit.elim Nat.le_of_eq And.left
    have hexact : stride label ≤ 16382 ∨ data.length = stride label := hfit.symm.imp_left fun hless => hless.2.1
    have hshort : (log src label dir).length + 1 < 2 ^ 32 := by
      rcases hcount with hcap | hcount
      · exact hgraph.length_of_capacity (hheap.heap.capacity_eq ▸ hcap) src label dir
      · have hlt := hcount src label dir
        rw [putsOn_of_on (.putEdge w src label dir dst data) ⟨rfl, rfl, Or.inl rfl⟩, ← hlog] at hlt
        exact hlt
    have hput := putEdge_extends hgraph hsrc dst.toNat_lt hexact hwidth (fun hf => hf.elim) (fun hne => ?_) hseen hshort
    · refine Ensures.bind (hput.mono (fun _ hq => hq) fun _ _ => trivial) ?_
      rintro g ⟨⟨own', hgraph'⟩, hsame, hext⟩
      refine ⟨⟨own', _, hgraph', fun v l d => ?_⟩, hheap.extends hext, hsame.undirected.trans h.undirected, ?_⟩
      · rw [hund]
        by_cases hon : (SegCall.putEdge w src label dir dst data).OnList (fun l => undirected.getD l false) v l d
        · rw [putsOn_of_on _ hon, ← hlog]
          unfold appendLog
          rw [if_pos (by exact hon), List.length_append, List.length_singleton]
        · rw [putsOn_of_not _ hon, ← hlog, appendLog_of_not hon]
      · obtain ⟨-, extra, -, -, hqueue, -⟩ := hext
        simp only [RecycleRun.waiting, hqueue, List.drop_left, List.map_append]
        rw [← List.append_assoc]
        exact h.balance.append_right _
    · rcases hfit with heq | hless
      · rw [heq]
        exact fun hfits => hfits
      · exact hless.2.2 hne
  · have hstop : (SegCall.putEdge w src label dir dst data).run t = .error .invalidVertexId := by
      unfold SegCall.run
      dsimp only
      rw [putEdge_invalid (Nat.not_lt.mp hsrc)]
      rfl
    rw [hstop]
    trivial

theorem reaches_of_recycled {g : SegGraph} {epochId : Nat} {b : MemBlock} (hb : (g.recycleSegments epochId).Reaches b) :
    g.Reaches b := by
  cases hb with
  | labels s hne => exact .labels s hne
  | segment s l d hne => exact .segment s l d hne
  | epochs s l d idx hne hidx ht => exact .epochs s l d idx hne hidx ht

theorem RecycleInv.recycleSegments (h : RecycleInv stride capacity undirected calls t) (epochId : Nat) :
    Ensures ((SegCall.recycleSegments epochId).run t)
      (RecycleInv stride capacity undirected (calls ++ [.recycleSegments epochId])) fun _ => True := by
  obtain ⟨own, log, hgraph, hlog⟩ := h.graph
  obtain ⟨live, hheap⟩ := h.heap
  obtain ⟨own', hgraph'⟩ := recycleSegments_inv hgraph epochId
  have hold : ∀ x ∈ t.graph.segmentsToRecycle.filter fun s => s.2.2 + lagEpochNumber < epochId,
      (⟨x.1, x.2.1⟩ : MemBlock) ∈ live := fun x hx => hheap.waiting x (List.mem_filter.mp hx).1
  obtain ⟨live', hinv, hkept⟩ :=
    Heap.inv_frees hheap.heap hold (hgraph.recycledOnce.sublist (List.filter_sublist.map _))
  refine ⟨⟨own', log, hgraph', fun v l d => ?_⟩, ⟨live', hinv, fun b hb => hkept b ?_ ?_, fun x hx => hkept _ ?_ ?_⟩,
    h.undirected, ?_⟩
  · rw [hlog, putsOn_of_not (.recycleSegments epochId) fun hon => hon]
  · exact hheap.reached b (reaches_of_recycled hb)
  · intro hmem
    obtain ⟨x, hx, heq⟩ := List.mem_map.mp hmem
    exact hgraph.reaches_ne_waiting (reaches_of_recycled hb) (List.mem_filter.mp hx).1 heq.symm
  · exact hheap.waiting x (List.mem_filter.mp hx).1
  · intro hmem
    obtain ⟨y, hy, heq⟩ := List.mem_map.mp hmem
    obtain ⟨hy, hlate⟩ := List.mem_filter.mp hy
    obtain ⟨hx, hnot⟩ := List.mem_filter.mp hx
    rw [List.inj_on_of_nodup_map hgraph.recycledOnce hy hx heq] at hlate
    simp [of_decide_eq_true hlate] at hnot
  · have hsplit := (List.filter_append_perm (fun s : Nat × Nat × Nat => s.2.2 + lagEpochNumber < epochId)
      t.graph.segmentsToRecycle).map Prod.fst
    rw [List.map_append] at hsplit
    refine h.balance.trans ?_
    unfold RecycleRun.waiting
    dsimp only [SegGraph.recycleSegments]
    rw [List.append_assoc]
    exact (hsplit.symm).append_left _

theorem RecycleInv.step {call : SegCall} (h : RecycleInv stride capacity undirected calls t)
    (hfit : call.Fitting stride t.graph)
    (hcount : capacity ≤ 2 ^ 35 ∨
      ∀ v l d, putsOn (fun l => undirected.getD l false) (calls ++ [call]) v l d < 2 ^ 32) :
    Ensures (call.run t) (RecycleInv stride capacity undirected (calls ++ [call])) fun _ => True := by
  cases call with
  | newVertex => exact h.newVertex
  | putEdge w src label dir dst data => exact h.putEdge hfit hcount
  | recycleSegments epochId => exact h.recycleSegments epochId

theorem recycleRun_inv (hcap : capacity ≤ 2 ^ 64)
    (hcount : capacity ≤ 2 ^ 35 ∨ ∀ v l d, putsOn (fun l => undirected.getD l false) calls v l d < 2 ^ 32)
    (hfit : FittingRun stride capacity undirected calls) :
    Ensures (runSegCalls capacity undirected calls) (RecycleInv stride capacity undirected calls) fun _ => True := by
  have hall := @foldlM_invariant _ _ _ SegCall.run
    (fun before t => runSegCalls capacity undirected before = .ok t ∧ RecycleInv stride capacity undirected before t)
    (fun _ => True) [] calls ⟨create capacity undirected, [], []⟩ ⟨rfl, recycleInv_create hcap⟩ ?_
  · exact hall.imp fun _ h => h.2
  · rintro before call after t hsplit ⟨hrun, hinv⟩
    rw [List.nil_append] at hsplit
    have hstep := hinv.step (hfit before call after t hsplit.symm hrun) (hcount.imp_right fun hcount v l d => ?_)
    · refine (hstep.and_of_ok fun t' hok => ?_).imp fun _ hq => ⟨hq.2, hq.1⟩
      unfold runSegCalls at hrun ⊢
      rw [List.foldlM_append, hrun]
      show (call.run t >>= pure) = _
      rw [bind_pure, hok]
    · have hsub : (before ++ [call]).Sublist calls := by
        rw [← hsplit]
        simp
      exact Nat.lt_of_le_of_lt (hsub.countP_le) (hcount v l d)

theorem RecycleInv.safe (h : RecycleInv stride capacity undirected calls t) : RecyclingSafe stride t := by
  obtain ⟨own, log, hgraph, -⟩ := h.graph
  obtain ⟨live, hheap⟩ := h.heap
  refine ⟨h.balance, hgraph.recycledOnce, fun x hx b hb => hheap.disjoint_free (hheap.waiting x hx) hb, ?_⟩
  intro start stop hreach b hb
  obtain ⟨c, hc, hstart, hstop⟩ := hgraph.reachable_inside hreach
  have hapart : c.Disjoint b := by
    rcases hb with hb | ⟨x, hx, rfl⟩
    · exact hheap.disjoint_free (hheap.reached c hc) hb
    · exact hheap.disjoint_live (hheap.reached c hc) (hheap.waiting x hx) (hgraph.reaches_ne_waiting hc hx)
  rcases hapart with hbefore | hbehind
  · exact Or.inl (by omega)
  · exact Or.inr (by omega)

end run

/-! ### A run with edges of different sizes -/

/-- `put_edge` up to the insertion, for data of `edgePropSize` bytes. -/
def SegGraph.placeForEdge (g : SegGraph) (writeEpochId src label : Nat) (dir : Dir) (edgePropSize : Nat) :
    Except Stop (Nat × Nat × SegGraph) := do
  if src ≥ g.vertexId then
    .error .invalidVertexId
  else
    let (segment, g) ← g.initSegment (src / vertexPerSeg) label dir
    let (segment, edgeBlock, g) ←
      g.roomForEdge writeEpochId (src / vertexPerSeg) label dir (src % vertexPerSeg) segment edgePropSize
    let (table, g) ← g.initEpochTable writeEpochId segment (src % vertexPerSeg)
    let g ← g.openEpoch writeEpochId segment (src % vertexPerSeg) edgeBlock table
    .ok (segment, edgeBlock, g)

/-- The number of the property slot that the next edge of a block gets. -/
def VegitoSegment.nextSlot (seg : VegitoSegment) (edgeBlock : Nat) : Nat :=
  seg.getAllocatedEdgeNum edgeBlock + seg.getNumEntries edgeBlock

/-- The graph with an edge of `edgePropSize` bytes of data at its place. -/
def SegGraph.insertAt (g : SegGraph) (segment edgeBlock dst edgePropSize : Nat) (edgeData : Bytes) : SegGraph :=
  let seg := (g.segments segment).appendEntry edgeBlock dst
  let offset := (g.segments segment).nextSlot edgeBlock
  g.setSegment segment { seg with body := write seg.body (seg.blockSize - (offset + 1) * edgePropSize) edgeData }

theorem putEdge_eq_place {g : SegGraph} {w src label dst : Nat} {dir : Dir} {data : Bytes} :
    g.putEdge w src label dir dst data = (do
      let r ← g.placeForEdge w src label dir data.length
      let seg ← ((r.2.2.segments r.1).insertEdge r.2.1 dst data).mapError .fault
      .ok (r.2.2.setSegment r.1 seg)) := by
  unfold putEdge placeForEdge
  split
  · rfl
  · simp only [bind_assoc]
    rfl

theorem putEdge_of_place {g g' : SegGraph} {w src label dst segment edgeBlock n : Nat} {dir : Dir} {data : Bytes}
    (hplace : g.placeForEdge w src label dir n = .ok (segment, edgeBlock, g')) (hlen : data.length = n) (hpos : 0 < n)
    (hfits : segmentHeaderSize + ((g'.segments segment).nextSlot edgeBlock + 1) * n ≤ (g'.segments segment).blockSize) :
    g.putEdge w src label dir dst data = .ok (g'.insertAt segment edgeBlock dst n data) := by
  subst hlen
  have hsize : ((g'.segments segment).appendEntry edgeBlock dst).blockSize = (g'.segments segment).blockSize := by
    unfold VegitoSegment.appendEntry
    dsimp only
    split <;> rfl
  have hinsert : (g'.segments segment).insertEdge edgeBlock dst data = .ok
      { (g'.segments segment).appendEntry edgeBlock dst with
        body := write ((g'.segments segment).appendEntry edgeBlock dst).body
          (((g'.segments segment).appendEntry edgeBlock dst).blockSize -
            ((g'.segments segment).nextSlot edgeBlock + 1) * data.length) data } := by
    unfold VegitoSegment.nextSlot at hfits ⊢
    unfold VegitoSegment.insertEdge VegitoSegment.appendProperty VegitoSegment.propertyAddr
    dsimp only
    rw [if_pos hpos, hsize, if_pos hfits]
    rfl
  rw [putEdge_eq_place, hplace]
  show (do
    let seg ← ((g'.segments segment).insertEdge edgeBlock dst data).mapError Stop.fault
    Except.ok (g'.setSegment segment seg)) = _
  rw [hinsert]
  rfl

def twoVertices : SegGraph := (create (2 ^ 23) [false]).newVertex.newVertex

@[irreducible] def wideData : Bytes := List.replicate 200000 0

theorem wideData_length : wideData.length = 200000 := by
  unfold wideData
  exact List.length_replicate

/-- Data for a slot that reaches over the edge block of its edge; its pointer to the block before becomes `2 ^ 20`. -/
@[irreducible] def overwriting : Bytes := List.replicate 32 0 ++ (toBytes 8 (2 ^ 20) ++ List.replicate 338556 0)

theorem overwriting_length : overwriting.length = 338596 := by
  unfold overwriting
  rw [List.length_append, List.length_append, List.length_replicate, List.length_replicate, toBytes_length]

/-- A merge at the first edge, the recycling of the first segment, and two edges of other sizes. -/
def mixedCalls : List SegCall :=
  [.newVertex, .newVertex, .putEdge 1 0 0 .eout 5 wideData, .recycleSegments 4, .putEdge 4 1 0 .eout 6 [],
    .putEdge 4 1 0 .eout 7 overwriting]

def firstPlace : Except Stop (Nat × Nat × SegGraph) := twoVertices.placeForEdge 1 0 0 .eout 200000

def lastPlace : Except Stop (Nat × Nat × SegGraph) := do
  let r ← firstPlace
  let g ← ((r.2.2.insertAt r.1 r.2.1 5 200000 wideData).recycleSegments 4).putEdge 4 1 0 .eout 6 []
  g.placeForEdge 4 1 0 .eout 338596

/-- Where an edge goes: its segment and edge block, the slot of its data, and the size of the segment. -/
def placeOf (r : Nat × Nat × SegGraph) : Nat × Nat × Nat × Nat :=
  (r.1, r.2.1, (r.2.2.segments r.1).nextSlot r.2.1, (r.2.2.segments r.1).blockSize)

theorem firstPlace_eq : (firstPlace.toOption.map placeOf) = some (2 ^ 21 + 64, 2 ^ 21 + 64 + 65560, 0, 2 ^ 21) := by
  decide +kernel

theorem lastPlace_eq : (lastPlace.toOption.map fun r => (placeOf r, (r.2.2.segments r.1).head,
    r.2.2.locateSegment 0 0 .eout, (r.2.2.segments r.1).regionPtrs 1, r.2.2.blockManager.freeBlocks 20)) =
    some ((2 ^ 21 + 64, 2 ^ 21 + 64 + 65592, 5, 2 ^ 21), 2 ^ 21 + 64, 2 ^ 21 + 64, 2 ^ 21 + 64 + 65592, [2 ^ 20]) := by
  decide +kernel

theorem foldlM_run_cons {t t' : RecycleRun} {call : SegCall} {calls : List SegCall} (h : call.run t = .ok t') :
    (call :: calls).foldlM SegCall.run t = calls.foldlM SegCall.run t' := by
  rw [List.foldlM_cons, h]
  rfl

theorem run_putEdge {t : RecycleRun} {g : SegGraph} {w src label : Nat} {dir : Dir} {dst : UInt64} {data : Bytes}
    (h : t.graph.putEdge w src label dir dst.toNat data = .ok g) :
    ∃ t', (SegCall.putEdge w src label dir dst data).run t = .ok t' ∧ t'.graph = g := by
  unfold SegCall.run
  dsimp only
  rw [h]
  exact ⟨_, rfl, rfl⟩

theorem mixedCalls_first : ∃ r t, firstPlace = .ok r ∧
    runSegCalls (2 ^ 23) [false] (mixedCalls.take 3) = .ok t ∧
        t.graph = r.2.2.insertAt r.1 r.2.1 5 200000 wideData := by
  obtain ⟨⟨segment, edgeBlock, g⟩, hplace, heq⟩ := exists_ok_of_map firstPlace_eq
  simp only [placeOf, Prod.mk.injEq] at heq
  obtain ⟨-, -, hslot, hsize⟩ := heq
  have hput := @putEdge_of_place _ g 1 0 0 5 segment edgeBlock 200000 .eout wideData hplace wideData_length
    (by decide) (by rw [hslot, hsize]; decide)
  obtain ⟨t, hrun, hgraph⟩ := @run_putEdge ⟨twoVertices, [], []⟩ _ 1 0 0 .eout 5 wideData hput
  refine ⟨_, t, hplace, ?_, hgraph⟩
  have hfirst : SegCall.newVertex.run ⟨create (2 ^ 23) [false], [], []⟩ =
      .ok ⟨(create (2 ^ 23) [false]).newVertex, [], []⟩ := rfl
  have hsecond : SegCall.newVertex.run ⟨(create (2 ^ 23) [false]).newVertex, [], []⟩ = .ok ⟨twoVertices, [], []⟩ := rfl
  unfold runSegCalls mixedCalls
  rw [List.take_succ_cons, List.take_succ_cons, List.take_succ_cons, List.take_zero, foldlM_run_cons hfirst,
    foldlM_run_cons hsecond, foldlM_run_cons hrun]
  rfl

theorem mixedCalls_last : ∃ p b g t, lastPlace = .ok (p, b, g) ∧ runSegCalls (2 ^ 23) [false] mixedCalls = .ok t ∧
    t.graph = g.insertAt p b 7 338596 overwriting := by
  obtain ⟨⟨p, b, g⟩, hlast, heq⟩ := exists_ok_of_map lastPlace_eq
  simp only [placeOf, Prod.mk.injEq] at heq
  obtain ⟨⟨-, -, hslot, hsize⟩, -⟩ := heq
  obtain ⟨r, t, hfirst, hrun, hgraph⟩ := mixedCalls_first
  have hplaces := hlast
  unfold lastPlace at hlast
  obtain ⟨r', hfirst', hlast⟩ := bind_eq_ok hlast
  obtain rfl := Except.ok.inj (hfirst.symm.trans hfirst')
  obtain ⟨g2, hput, hplace⟩ := bind_eq_ok hlast
  rw [← hgraph] at hput
  have hwide := @putEdge_of_place _ g 4 1 0 7 p b 338596 .eout overwriting hplace overwriting_length (by decide)
    (by rw [hslot, hsize]; decide)
  obtain ⟨t1, hrecycle, hgraph1⟩ : ∃ t1, (SegCall.recycleSegments 4).run t = .ok t1 ∧
      t1.graph = t.graph.recycleSegments 4 :=
    ⟨_, rfl, rfl⟩
  rw [← hgraph1] at hput
  obtain ⟨t2, hsecond, hgraph2⟩ := @run_putEdge t1 g2 4 1 0 .eout 6 [] hput
  rw [← hgraph2] at hwide
  obtain ⟨t3, hthird, hgraph3⟩ := @run_putEdge t2 _ 4 1 0 .eout 7 overwriting hwide
  refine ⟨p, b, g, t3, hplaces, ?_, hgraph3⟩
  have hsplit : mixedCalls = mixedCalls.take 3 ++ [.recycleSegments 4, .putEdge 4 1 0 .eout 6 [],
    .putEdge 4 1 0 .eout 7 overwriting] := rfl
  unfold runSegCalls at hrun ⊢
  rw [hsplit, List.foldlM_append, hrun]
  show List.foldlM SegCall.run t _ = _
  rw [foldlM_run_cons hrecycle, foldlM_run_cons hsecond, foldlM_run_cons hthird]
  rfl

/-! ### Safety -/

/-- In a run in which the data of every edge is fitting, every segment is put on the list and given back once, and
nothing that the label pointers lead to lies in a segment that waits or was given back. -/
theorem recycling_safe {stride : Nat → Nat} {capacity : Nat} {undirected : List Bool} {calls : List SegCall}
    {t : RecycleRun} (hcap : capacity ≤ 2 ^ 64)
    (hcount : capacity ≤ 2 ^ 35 ∨ ∀ v l d, putsOn (fun l => undirected.getD l false) calls v l d < 2 ^ 32)
    (hfit : FittingRun stride capacity undirected calls) (hrun : runSegCalls capacity undirected calls = .ok t) :
    RecyclingSafe stride t :=
  ((recycleRun_inv hcap hcount hfit).of_ok hrun).safe

/-- The first four calls, at a property size of 200000 bytes: the segment of the merge is given back. -/
theorem recycling_safe_wide : ∃ t, runSegCalls (2 ^ 23) [false] (mixedCalls.take 4) = .ok t ∧
    RecyclingSafe (fun _ => 200000) t := by
  obtain ⟨r, t, -, hrun, -⟩ := mixedCalls_first
  have hrun4 : runSegCalls (2 ^ 23) [false] (mixedCalls.take 4) = (SegCall.recycleSegments 4).run t := by
    have hsplit : mixedCalls.take 4 = mixedCalls.take 3 ++ [.recycleSegments 4] := rfl
    unfold runSegCalls at hrun ⊢
    rw [hsplit, List.foldlM_append, hrun]
    show ((SegCall.recycleSegments 4).run t >>= pure) = _
    rw [bind_pure]
  refine ⟨_, hrun4, recycling_safe (by decide) (Or.inl (by decide)) ?_ hrun4⟩
  intro before call after t' hsplit _
  have hmem : call ∈ mixedCalls.take 4 := by
    rw [hsplit]
    exact List.mem_append_right _ List.mem_cons_self
  simp only [mixedCalls, List.take, List.mem_cons, List.not_mem_nil, or_false] at hmem
  rcases hmem with rfl | rfl | rfl | rfl
  · trivial
  · trivial
  · exact Or.inl wideData_length
  · trivial

theorem overwriting_prevPointer : ofBytes ((overwriting.drop 32).take 8) = 2 ^ 20 := by
  unfold overwriting
  decide +kernel

theorem insertAt_segment (g : SegGraph) (p b dst n : Nat) (data : Bytes) :
    ((g.insertAt p b dst n data).segments p).regionPtrs = (g.segments p).regionPtrs ∧
      ∃ m, ((g.insertAt p b dst n data).segments p).getPrevPointer b =
        load (write m ((g.segments p).blockSize - ((g.segments p).nextSlot b + 1) * n) data)
          (b - (g.segments p).head + 16) 8 := by
  have hkeep : ((g.segments p).appendEntry b dst).regionPtrs = (g.segments p).regionPtrs ∧
      ((g.segments p).appendEntry b dst).head = (g.segments p).head ∧
      ((g.segments p).appendEntry b dst).blockSize = (g.segments p).blockSize := by
    unfold VegitoSegment.appendEntry
    dsimp only
    split
    · exact ⟨rfl, rfl, rfl⟩
    · exact ⟨rfl, rfl, rfl⟩
  obtain ⟨hregion, hhead, hsize⟩ := hkeep
  unfold insertAt
  dsimp only
  simp only [SegGraph.setSegment, Function.update_self, VegitoSegment.getPrevPointer, VegitoSegment.blockAddr, hhead]
  rw [← hsize]
  exact ⟨hregion, _, rfl⟩

/-- A wide edge runs over an edge block, and the list of the edge goes on in the segment that was given back. -/
theorem recycling_mixedSizes : ¬ ∀ (edgePropSize : Nat → Nat) (capacity : Nat) (undirected : List Bool)
    (calls : List SegCall) (t : RecycleRun), runSegCalls capacity undirected calls = .ok t →
      RecyclingSafe edgePropSize t := by
  intro h
  obtain ⟨p, b, g, t, hlast, hrun, hgraph⟩ := mixedCalls_last
  have hsafe := h (fun _ => 0) _ _ _ t hrun
  obtain ⟨r, hlast', heq⟩ := exists_ok_of_map lastPlace_eq
  obtain rfl := Except.ok.inj (hlast.symm.trans hlast')
  simp only [placeOf, Prod.mk.injEq] at heq
  obtain ⟨⟨hp, hb, hslot, hsize⟩, hhead, hlocate, hregion, hfree⟩ := heq
  have hlocated : t.graph.locateSegment 0 0 .eout = p := by
    rw [hgraph, hp]
    exact hlocate
  have hne : t.graph.locateSegment 0 0 .eout ≠ 0 := by
    rw [hlocated, hp]
    decide
  obtain ⟨hregions, m, hprev⟩ := insertAt_segment g p b 7 338596 overwriting
  have hlen := overwriting_length
  have hpointer : ((g.insertAt p b 7 338596 overwriting).segments p).getPrevPointer b = 2 ^ 20 := by
    rw [hprev, hslot, hsize, hhead, hb]
    unfold load
    rw [read_write_inside (by omega) (by omega)]
    exact overwriting_prevPointer
  have hnewest : ((g.insertAt p b 7 338596 overwriting).segments p).regionPtrs 1 = b := by
    rw [hregions, hregion, hb]
  have hchained : ((g.insertAt p b 7 338596 overwriting).segments p).Chained 1 (2 ^ 20) := by
    generalize (g.insertAt p b 7 338596 overwriting).segments p = seg at hpointer hnewest
    have hfirst : seg.Chained 1 b := by
      have hstart := @VegitoSegment.Chained.newest seg 1
      rw [hnewest] at hstart
      exact hstart (by omega)
    have hnext := hfirst.previous b
    rw [hpointer] at hnext
    exact hnext (by decide)
  rw [← hgraph, ← hlocated] at hchained
  have hreach := hsafe.reached _ _ (.edgeBlock 0 0 .eout 1 (2 ^ 20) hne hchained) ⟨2 ^ 20, 20⟩ (Or.inl ?_)
  · unfold MemBlock.stop edgeBlockHeaderSize at hreach
    dsimp only at hreach
    omega
  · rw [hgraph]
    show 2 ^ 20 ∈ g.blockManager.freeBlocks 20
    rw [hfree]
    exact List.mem_singleton_self _

end Gart.Seggraph
