import Gart.Seggraph.Growth

/-!
# The layout of one segment

Edge blocks grow up from the header of a segment and property slots grow down
from its end. `alloc` counts a slot of both kinds for each entry and each header
word, so that the two never meet while its `size_t` arithmetic does not wrap.
-/

namespace Gart.Seggraph
open Gart.ByteMemory Gart.Outcome

/-! ### alloc in the arithmetic of size_t -/

/-- `alloc` with the sums and products of the machine. Orders are below 64, where the shift is defined. -/
def VegitoSegment.allocWord (seg : VegitoSegment) (edgeNumOrder edgePropSize : Nat) : Nat × VegitoSegment :=
  let requireEdgeNum := (edgeBlockHeaderSize / edgeEntrySize + 2 ^ edgeNumOrder) % 2 ^ 64
  let ret := seg.allocatedEdgeNum
  let seg' := { seg with allocatedEdgeNum := (ret + requireEdgeNum) % 2 ^ 64 }
  if (segmentHeaderSize + (ret + requireEdgeNum) * (edgeEntrySize + edgePropSize)) % 2 ^ 64 > seg.blockSize then
    (0, seg')
  else
    ((seg.head + segmentHeaderSize + ret * edgeEntrySize) % 2 ^ 64, seg')

section word
variable {seg : VegitoSegment} {order edgePropSize : Nat}

theorem allocWord_eq (hplace : seg.head + 2 ^ seg.order ≤ 2 ^ 64)
    (hcount : segmentHeaderSize +
      (seg.allocatedEdgeNum + (3 + 2 ^ order)) * (edgeEntrySize + edgePropSize) < 2 ^ 64) :
    seg.allocWord order edgePropSize = seg.alloc order edgePropSize := by
  have hslots : seg.allocatedEdgeNum + (3 + 2 ^ order) ≤
      (seg.allocatedEdgeNum + (3 + 2 ^ order)) * (edgeEntrySize + edgePropSize) :=
    Nat.le_mul_of_pos_right _ (by unfold edgeEntrySize; omega)
  have hrequire : (edgeBlockHeaderSize / edgeEntrySize + 2 ^ order) % 2 ^ 64 = 3 + 2 ^ order := by
    have hthree : edgeBlockHeaderSize / edgeEntrySize = 3 := rfl
    rw [hthree, Nat.mod_eq_of_lt (by omega)]
  have hnext : seg.allocatedEdgeNum + (3 + 2 ^ order) < 2 ^ 64 := by omega
  unfold VegitoSegment.allocWord VegitoSegment.alloc
  rw [hrequire, requireEdgeNum_eq]
  simp only [Nat.mod_eq_of_lt hcount, Nat.mod_eq_of_lt hnext]
  by_cases hfull : segmentHeaderSize +
      (seg.allocatedEdgeNum + (3 + 2 ^ order)) * (edgeEntrySize + edgePropSize) > seg.blockSize
  · rw [if_pos hfull, if_pos hfull]
  · rw [if_neg hfull, if_neg hfull, Nat.mod_eq_of_lt]
    -- the block starts inside the segment
    have hmul := Nat.mul_add (seg.allocatedEdgeNum + (3 + 2 ^ order)) edgeEntrySize edgePropSize
    have hsize : seg.blockSize = 2 ^ seg.order := rfl
    have hpow : 0 < 2 ^ order := Nat.two_pow_pos _
    unfold edgeEntrySize at hfull hmul ⊢
    omega

end word

/-! ### Runs -/

/-- An edge block that `alloc` has returned. -/
structure EdgeBlockAt where
  pointer : Nat
  order : Nat
  deriving DecidableEq

/-- The byte behind the block. -/
def EdgeBlockAt.stop (b : EdgeBlockAt) : Nat :=
  b.pointer + edgeBlockHeaderSize + 2 ^ b.order * edgeEntrySize

/-- A segment, and the edge blocks returned so far. -/
structure Carving where
  seg : VegitoSegment
  blocks : List EdgeBlockAt

inductive SegmentCall
  | alloc (edgeNumOrder : Nat)
  /-- the property of entry `i` of an edge block -/
  | appendProperty (edgeBlock : EdgeBlockAt) (i : Nat) (value : Bytes)

/-- `alloc`, with the block kept if there is one. -/
def Carving.alloc (s : Carving) (edgePropSize edgeNumOrder : Nat) : Carving :=
  let r := s.seg.allocWord edgeNumOrder edgePropSize
  { seg := r.2
    blocks := if r.1 = 0 then s.blocks else s.blocks ++ [⟨r.1, edgeNumOrder⟩] }

/-- A sequence of calls on a segment with properties of one size. The number of an edge is the first number
of its block and its place there, as `put_edge` and `merge_segment` compute it. -/
inductive CarvingRun (edgePropSize : Nat) (start : VegitoSegment) : List SegmentCall → Carving → Prop
  | nil : CarvingRun edgePropSize start [] ⟨start, []⟩
  | alloc {calls : List SegmentCall} {s : Carving} (edgeNumOrder : Nat) :
      CarvingRun edgePropSize start calls s → edgeNumOrder < 64 →
      CarvingRun edgePropSize start (calls ++ [.alloc edgeNumOrder]) (s.alloc edgePropSize edgeNumOrder)
  | appendProperty {calls : List SegmentCall} {s : Carving} {seg : VegitoSegment} (b : EdgeBlockAt) (i : Nat)
      (value : Bytes) : CarvingRun edgePropSize start calls s → b ∈ s.blocks → i < 2 ^ b.order →
      value.length = edgePropSize →
      s.seg.appendProperty (s.seg.getAllocatedEdgeNum b.pointer + i) value = .ok seg →
      CarvingRun edgePropSize start (calls ++ [.appendProperty b i value]) { s with seg := seg }

def slotsRequested : List SegmentCall → Nat
  | [] => 0
  | .alloc edgeNumOrder :: rest => (3 + 2 ^ edgeNumOrder) + slotsRequested rest
  | .appendProperty _ _ _ :: rest => slotsRequested rest

/-- The edge blocks lie in the segment and apart; the property slot of each of their entries can be addressed,
lies above the header, the vertex index and all edge blocks, and apart from the slot of every other entry. -/
structure SegmentLayout (head order edgePropSize : Nat) (s : Carving) : Prop where
  sameHead : s.seg.head = head
  sameOrder : s.seg.order = order
  inside : ∀ b ∈ s.blocks, head + segmentHeaderSize ≤ b.pointer ∧ b.stop ≤ head + 2 ^ order
  disjoint : s.blocks.Pairwise fun b c => b.stop ≤ c.pointer ∨ c.stop ≤ b.pointer
  slot : ∀ b ∈ s.blocks, ∀ i, i < 2 ^ b.order → ∃ addr,
    s.seg.propertyAddr (s.seg.getAllocatedEdgeNum b.pointer + i) edgePropSize = .ok addr ∧
    segmentHeaderSize ≤ addr ∧ addr + edgePropSize ≤ 2 ^ order ∧ ∀ c ∈ s.blocks, c.stop ≤ head + addr
  slots : ∀ b ∈ s.blocks, ∀ c ∈ s.blocks, ∀ i j addr addr', i < 2 ^ b.order → j < 2 ^ c.order → (b, i) ≠ (c, j) →
    s.seg.propertyAddr (s.seg.getAllocatedEdgeNum b.pointer + i) edgePropSize = .ok addr →
    s.seg.propertyAddr (s.seg.getAllocatedEdgeNum c.pointer + j) edgePropSize = .ok addr' →
    addr + edgePropSize ≤ addr' ∨ addr' + edgePropSize ≤ addr

theorem slotsRequested_append (calls calls' : List SegmentCall) :
    slotsRequested (calls ++ calls') = slotsRequested calls + slotsRequested calls' := by
  induction calls with
  | nil => simp [slotsRequested]
  | cons call rest ih =>
    cases call with
    | alloc o =>
      simp only [List.cons_append, slotsRequested, ih]
      omega
    | appendProperty b i value =>
      simp only [List.cons_append, slotsRequested, ih]

/-! ### The invariant -/

/-- The block of `alloc` at a slot of the segment. -/
def Block.carved (b : Block) (head : Nat) : EdgeBlockAt := ⟨b.pointer head, b.order⟩

/-- The returned blocks lie one behind the other in the first `total` slots, all of which fit; what the calls have
asked for since then does not. -/
structure CarvingInv (head order edgePropSize requested : Nat) (s : Carving) (carved : List Block) (total : Nat) :
    Prop where
  sameHead : s.seg.head = head
  sameOrder : s.seg.order = order
  counter : s.seg.allocatedEdgeNum = requested
  blocks : s.blocks = carved.map fun b => b.carved head
  ordered : carved.Pairwise fun b c => b.stop ≤ c.slot
  below : ∀ b ∈ carved, b.stop ≤ total
  used : total ≤ requested
  fits : carved ≠ [] → Fits edgePropSize total order

section run
variable {head order edgePropSize segid requested total : Nat} {blank : VegitoSegment} {calls : List SegmentCall}
  {s : Carving} {carved : List Block}

theorem carvingInv_fill :
    CarvingInv head order edgePropSize 0 ⟨blank.fill head order segid, []⟩ [] 0 where
  sameHead := rfl
  sameOrder := rfl
  counter := rfl
  blocks := rfl
  ordered := .nil
  below b hb := by cases hb
  used := Nat.le_refl 0
  fits h := absurd rfl h

/-- The next request is answered with the slots behind all that were asked for, or refused. -/
theorem CarvingInv.alloc (h : CarvingInv head order edgePropSize requested s carved total)
    (hplace : head + 2 ^ order ≤ 2 ^ 64) {edgeNumOrder : Nat}
    (hcount : segmentHeaderSize + (requested + (3 + 2 ^ edgeNumOrder)) * (edgeEntrySize + edgePropSize) < 2 ^ 64) :
    ∃ carved' total', CarvingInv head order edgePropSize (requested + (3 + 2 ^ edgeNumOrder))
      (s.alloc edgePropSize edgeNumOrder) carved' total' := by
  have hword : s.seg.allocWord edgeNumOrder edgePropSize = s.seg.alloc edgeNumOrder edgePropSize := by
    refine allocWord_eq ?_ ?_
    · rw [h.sameHead, h.sameOrder]
      exact hplace
    · rw [h.counter]
      exact hcount
  have hpow : 0 < 2 ^ edgeNumOrder := Nat.two_pow_pos _
  unfold Carving.alloc
  dsimp only
  rw [hword, alloc_fst, alloc_snd]
  by_cases hfits : Fits edgePropSize (s.seg.allocatedEdgeNum + (3 + 2 ^ edgeNumOrder)) s.seg.order
  · rw [if_pos hfits, if_neg (Block.pointer_ne_zero _ _)]
    refine ⟨carved ++ [nextBlock s.seg edgeNumOrder], requested + (3 + 2 ^ edgeNumOrder), ?_⟩
    rw [h.counter, h.sameOrder] at hfits
    refine ⟨h.sameHead, h.sameOrder, ?_, ?_, ?_, ?_, Nat.le_refl _, fun _ => hfits⟩
    · simp only [bumped, h.counter]
    · rw [List.map_append, ← h.blocks, h.sameHead]
      rfl
    · -- every earlier block ends where the request starts, or before
      rw [List.pairwise_append]
      refine ⟨h.ordered, List.pairwise_singleton _ _, ?_⟩
      intro b hb c hc
      rw [List.mem_singleton.mp hc]
      have hstop := h.below b hb
      have hused := h.used
      simp only [nextBlock, h.counter]
      omega
    · intro b hb
      rcases List.mem_append.mp hb with hb | hb
      · have hstop := h.below b hb
        have hused := h.used
        omega
      · rw [List.mem_singleton.mp hb]
        simp only [Block.stop, nextBlock, h.counter]
        omega
  · rw [if_neg hfits, if_pos rfl]
    have hused := h.used
    refine ⟨carved, total, h.sameHead, h.sameOrder, ?_, h.blocks, h.ordered, h.below, by omega, h.fits⟩
    simp only [bumped, h.counter]

theorem appendProperty_header {seg seg' : VegitoSegment} {offset : Nat} {value : Bytes}
    (h : seg.appendProperty offset value = .ok seg') : ∃ body, seg' = { seg with body := body } := by
  unfold VegitoSegment.appendProperty at h
  obtain ⟨addr, -, h⟩ := bind_eq_ok h
  cases h
  exact ⟨_, rfl⟩

theorem CarvingInv.write (h : CarvingInv head order edgePropSize requested s carved total) (body : Memory) :
    CarvingInv head order edgePropSize requested { s with seg := { s.seg with body := body } } carved total :=
  ⟨h.sameHead, h.sameOrder, h.counter, h.blocks, h.ordered, h.below, h.used, h.fits⟩

theorem carvingInv_run (hplace : head + 2 ^ order ≤ 2 ^ 64)
    (hrun : CarvingRun edgePropSize (blank.fill head order segid) calls s)
    (hcount : segmentHeaderSize + slotsRequested calls * (edgeEntrySize + edgePropSize) < 2 ^ 64) :
    ∃ carved total, CarvingInv head order edgePropSize (slotsRequested calls) s carved total := by
  induction hrun with
  | nil => exact ⟨[], 0, carvingInv_fill⟩
  | @alloc calls s edgeNumOrder hrun _ ih =>
    have hsum : slotsRequested (calls ++ [.alloc edgeNumOrder]) = slotsRequested calls + (3 + 2 ^ edgeNumOrder) :=
      slotsRequested_append _ _
    rw [hsum] at hcount ⊢
    have hle : slotsRequested calls * (edgeEntrySize + edgePropSize) ≤
        (slotsRequested calls + (3 + 2 ^ edgeNumOrder)) * (edgeEntrySize + edgePropSize) :=
      Nat.mul_le_mul_right _ (Nat.le_add_right _ _)
    obtain ⟨carved, total, hinv⟩ := ih (by omega)
    exact hinv.alloc hplace hcount
  | @appendProperty calls s seg b i value hrun hb hi hlen hwrite ih =>
    have hsum : slotsRequested (calls ++ [.appendProperty b i value]) = slotsRequested calls :=
      slotsRequested_append _ _
    rw [hsum] at hcount ⊢
    obtain ⟨carved, total, hinv⟩ := ih hcount
    obtain ⟨body, rfl⟩ := appendProperty_header hwrite
    exact ⟨carved, total, hinv.write body⟩

/-! ### From slots to bytes -/

theorem Block.carved_stop (b : Block) (head : Nat) :
    (b.carved head).stop = head + segmentHeaderSize + 8 * b.stop := by
  simp only [EdgeBlockAt.stop, Block.carved, Block.pointer, Block.stop, edgeBlockHeaderSize, edgeEntrySize]
  omega

theorem CarvingInv.allocatedEdgeNum (h : CarvingInv head order edgePropSize requested s carved total) (b : Block) :
    s.seg.getAllocatedEdgeNum (b.carved head).pointer = b.slot := by
  rw [← h.sameHead]
  exact s.seg.getAllocatedEdgeNum_pointer b

theorem CarvingInv.propertyAddr (h : CarvingInv head order edgePropSize requested s carved total) {b : Block}
    (hb : b ∈ carved) {i : Nat} (hi : i < 2 ^ b.order) :
    s.seg.propertyAddr (s.seg.getAllocatedEdgeNum (b.carved head).pointer + i) edgePropSize =
        .ok (2 ^ order - (b.slot + i + 1) * edgePropSize) ∧
      segmentHeaderSize + 8 * total + (b.slot + i + 1) * edgePropSize ≤ 2 ^ order := by
  have hfits := h.fits (List.ne_nil_of_mem hb)
  have hstop := h.below b hb
  unfold Block.stop at hstop
  have hle : (b.slot + i + 1) * edgePropSize ≤ total * edgePropSize := Nat.mul_le_mul_right _ (by omega)
  unfold Fits at hfits
  have hsize : s.seg.blockSize = 2 ^ order := by rw [VegitoSegment.blockSize, h.sameOrder]
  refine ⟨?_, by omega⟩
  rw [h.allocatedEdgeNum]
  unfold VegitoSegment.propertyAddr
  rw [hsize, if_pos (by omega)]

theorem CarvingInv.exists_carved (h : CarvingInv head order edgePropSize requested s carved total)
    {b : EdgeBlockAt} (hb : b ∈ s.blocks) : ∃ d ∈ carved, d.carved head = b := by
  rw [h.blocks] at hb
  exact List.mem_map.mp hb

theorem CarvingInv.apart (h : CarvingInv head order edgePropSize requested s carved total) {b c : Block}
    (hb : b ∈ carved) (hc : c ∈ carved) : b = c ∨ b.stop ≤ c.slot ∨ c.stop ≤ b.slot := by
  have hapart : carved.Pairwise fun b c => b.stop ≤ c.slot ∨ c.stop ≤ b.slot := h.ordered.imp Or.inl
  have hsymm : Std.Symm fun b c : Block => b.stop ≤ c.slot ∨ c.stop ≤ b.slot := ⟨fun _ _ => Or.symm⟩
  by_cases heq : b = c
  · exact Or.inl heq
  · exact Or.inr (hapart.forall hb hc heq)

theorem CarvingInv.layout (h : CarvingInv head order edgePropSize requested s carved total) :
    SegmentLayout head order edgePropSize s where
  sameHead := h.sameHead
  sameOrder := h.sameOrder
  inside b hb := by
    obtain ⟨d, hd, rfl⟩ := h.exists_carved hb
    have hfits := h.fits (List.ne_nil_of_mem hd)
    have hstop := h.below d hd
    unfold Fits at hfits
    rw [d.carved_stop]
    simp only [Block.carved, Block.pointer]
    omega
  disjoint := by
    rw [h.blocks, List.pairwise_map]
    refine h.ordered.imp fun hbc => Or.inl ?_
    rw [Block.carved_stop]
    simp only [Block.carved, Block.pointer]
    omega
  slot b hb i hi := by
    obtain ⟨d, hd, rfl⟩ := h.exists_carved hb
    obtain ⟨haddr, hroom⟩ := h.propertyAddr hd hi
    refine ⟨_, haddr, by omega, ?_, ?_⟩
    · have hone : edgePropSize ≤ (d.slot + i + 1) * edgePropSize := Nat.le_mul_of_pos_left _ (by omega)
      omega
    · intro c hc
      obtain ⟨e, he, rfl⟩ := h.exists_carved hc
      have hstop := h.below e he
      rw [e.carved_stop]
      omega
  slots b hb c hc i j addr addr' hi hj hne haddr haddr' := by
    obtain ⟨d, hd, rfl⟩ := h.exists_carved hb
    obtain ⟨e, he, rfl⟩ := h.exists_carved hc
    obtain ⟨hslot, hroom⟩ := h.propertyAddr hd hi
    obtain ⟨hslot', hroom'⟩ := h.propertyAddr he hj
    rw [hslot] at haddr
    rw [hslot'] at haddr'
    cases haddr
    cases haddr'
    -- the numbers of the two edges differ
    have hnum : d.slot + i < e.slot + j ∨ e.slot + j < d.slot + i := by
      simp only [Block.carved] at hi hj
      rcases h.apart hd he with rfl | hbelow | habove
      · have hij : i ≠ j := fun heq => hne (by rw [heq])
        omega
      · unfold Block.stop at hbelow
        omega
      · unfold Block.stop at habove
        omega
    rcases hnum with hlt | hlt
    · refine Or.inr ?_
      have hle : (d.slot + i + 1 + 1) * edgePropSize ≤ (e.slot + j + 1) * edgePropSize :=
        Nat.mul_le_mul_right _ (by omega)
      have hsucc : (d.slot + i + 1 + 1) * edgePropSize = (d.slot + i + 1) * edgePropSize + edgePropSize :=
        Nat.succ_mul _ _
      omega
    · refine Or.inl ?_
      have hle : (e.slot + j + 1 + 1) * edgePropSize ≤ (d.slot + i + 1) * edgePropSize :=
        Nat.mul_le_mul_right _ (by omega)
      have hsucc : (e.slot + j + 1 + 1) * edgePropSize = (e.slot + j + 1) * edgePropSize + edgePropSize :=
        Nat.succ_mul _ _
      omega

/-- For every order of the segment, every property size and every sequence of calls whose slots the machine can
count in bytes, the blocks and the property slots of their entries are laid out apart. -/
theorem segmentLayout_run (hplace : head + 2 ^ order ≤ 2 ^ 64)
    (hrun : CarvingRun edgePropSize (blank.fill head order segid) calls s)
    (hcount : segmentHeaderSize + slotsRequested calls * (edgeEntrySize + edgePropSize) < 2 ^ 64) :
    SegmentLayout head order edgePropSize s := by
  obtain ⟨carved, total, hinv⟩ := carvingInv_run hplace hrun hcount
  exact hinv.layout

/-! ### The callers -/

section callers
variable {tracked : Prop} {stride : Nat} {seg : VegitoSegment} {C : Nat → List Block} {i edgeNumOrder : Nat}

theorem allocWord_of_fits (hplace : seg.head + 2 ^ seg.order < 2 ^ 64)
    (hfits : Fits stride (seg.allocatedEdgeNum + (3 + 2 ^ edgeNumOrder)) seg.order) :
    seg.allocWord edgeNumOrder stride = seg.alloc edgeNumOrder stride := by
  refine allocWord_eq hplace.le ?_
  have hmul := Nat.mul_add (seg.allocatedEdgeNum + (3 + 2 ^ edgeNumOrder)) edgeEntrySize stride
  unfold Fits at hfits
  unfold edgeEntrySize at hmul ⊢
  omega

theorem SegInv.allocWord_nextOrder (h : SegInv tracked stride seg C) (hstride : stride ≤ 16382)
    (horder : seg.order ≤ 62) :
    seg.allocWord (nextOrder (C i)) stride = seg.alloc (nextOrder (C i)) stride := by
  have hrequest : 3 + 2 ^ nextOrder (C i) ≤ 2 * seg.allocatedEdgeNum + 5 := by
    cases hC : C i with
    | nil =>
      simp only [nextOrder, defaultInitOrder]
      omega
    | cons b rest =>
      have hstop := h.inside i b (by rw [hC]; exact List.mem_cons_self)
      unfold Block.stop at hstop
      simp only [nextOrder, Nat.pow_succ]
      omega
  have hfits := h.fits
  unfold Fits at hfits
  have hpow : 2 ^ seg.order ≤ 2 ^ 62 := Nat.pow_le_pow_right (by decide) horder
  have hslots : (seg.allocatedEdgeNum + (3 + 2 ^ nextOrder (C i))) * stride ≤
      (3 * seg.allocatedEdgeNum + 5) * stride := Nat.mul_le_mul_right _ (by omega)
  have hexp : (3 * seg.allocatedEdgeNum + 5) * stride = 3 * (seg.allocatedEdgeNum * stride) + 5 * stride := by
    rw [Nat.add_mul, Nat.mul_assoc]
  have hmul := Nat.mul_add (seg.allocatedEdgeNum + (3 + 2 ^ nextOrder (C i))) edgeEntrySize stride
  have hheader : segmentHeaderSize = 65560 := rfl
  refine allocWord_eq h.address ?_
  unfold edgeEntrySize at hmul ⊢
  omega

end callers

/-! ### Samples -/

/-- A segment of 128 KiB behind the null holder, with nothing in it. -/
def smallSegment : VegitoSegment :=
  { order := 17
    segmentId := 0
    head := 2 ^ 20
    allocatedEdgeNum := 0
    regionPtrs := fun _ => 0
    epochTables := fun _ => 0
    body := fun _ => 0 }

theorem segmentLayout_run_small : SegmentLayout (2 ^ 20) 17 8
    (((⟨smallSegment.fill (2 ^ 20) 17 0, []⟩ : Carving).alloc 8 1).alloc 8 2) :=
  segmentLayout_run (by decide) (.alloc 2 (.alloc 1 .nil (by decide)) (by decide)) (by decide)

/-- A request of 2^60 entries: its bytes are 48 to the machine. -/
theorem segmentLayout_wraps : ¬ ∀ (head order edgePropSize segid : Nat) (blank : VegitoSegment)
    (calls : List SegmentCall) (s : Carving), head + 2 ^ order ≤ 2 ^ 64 →
    CarvingRun edgePropSize (blank.fill head order segid) calls s → SegmentLayout head order edgePropSize s := by
  intro h
  have hlayout := h (2 ^ 20) 20 8 0 smallSegment _ _ (by decide) (.alloc 60 .nil (by decide))
  have hinside := (hlayout.inside ⟨2 ^ 20 + 65560, 60⟩ (by decide +kernel)).2
  revert hinside
  decide

end run

end Gart.Seggraph
