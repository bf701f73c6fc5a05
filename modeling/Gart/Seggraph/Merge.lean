import Mathlib.Algebra.Order.BigOperators.Group.Finset
import Mathlib.Algebra.BigOperators.Ring.Finset
import Mathlib.Tactic.Ring
import Gart.Seggraph.Growth

/-!
# Merging a full segment into a larger one

`merge_segment` gives every vertex one block with the edges of its whole chain.
The loop invariant `Merging` describes the new segment after the first vertices,
and counting slots shows that a segment of twice the size has room for all of
them and for the pending edge.
-/

namespace Gart.Seggraph
open Gart.ByteMemory Gart.Outcome

/-! ### Orders of merged blocks -/

theorem testBit_log2 {x l : Nat} (h1 : 2 ^ l ≤ x) (h2 : x < 2 ^ (l + 1)) :
    x.testBit l = true := by
  have hdiv : x / 2 ^ l = 1 := by
    rw [Nat.pow_succ] at h2
    exact Nat.div_eq_of_lt_le (by omega) (by omega)
  rw [Nat.testBit_eq_decide_div_mod_eq, hdiv]
  rfl

theorem le_two_pow_sizeToOrder (size : Nat) : size ≤ 2 ^ sizeToOrder size := by
  have hlt : size < 2 ^ (Nat.log2 size + 1) := Nat.lt_log2_self
  unfold sizeToOrder
  by_cases hbits : size &&& (size - 1) = 0
  · rw [if_neg (by simpa using hbits), Nat.zero_add]
    by_contra hgt
    -- above a power of two, the leading bit survives the subtraction
    have hand : (size &&& (size - 1)).testBit (Nat.log2 size) = true := by
      rw [Nat.testBit_and, testBit_log2 (by omega) hlt, testBit_log2 (by omega) (by omega)]
      rfl
    rw [hbits, Nat.zero_testBit] at hand
    exact absurd hand (by simp)
  · rw [if_pos hbits, Nat.add_comm]
    exact hlt.le

theorem two_pow_sizeToOrder_lt {size : Nat} (hpos : 0 < size) :
    2 ^ sizeToOrder size < 2 * size := by
  have hle : 2 ^ Nat.log2 size ≤ size := Nat.log2_self_le (by omega)
  unfold sizeToOrder
  by_cases hbits : size &&& (size - 1) = 0
  · rw [if_neg (by simpa using hbits), Nat.zero_add]
    omega
  · rw [if_pos hbits, Nat.add_comm, Nat.pow_succ]
    have hne : size ≠ 2 ^ Nat.log2 size := by
      intro heq
      rw [heq, Nat.and_two_pow_sub_one_eq_mod, Nat.mod_self] at hbits
      exact hbits rfl
    omega

/-! ### Slots of the merged segment -/

section
variable {tracked : Prop} {stride : Nat} {seg : VegitoSegment} {C : Nat → List Block}

/-- `merged_size`: one more for the vertex of the pending edge. -/
def mergedSize (pending : Option Nat) (C : Nat → List Block) (i : Nat) : Nat :=
  if pending = some i then (chainEdges (C i)).length + 1 else (chainEdges (C i)).length

/-- Vertices without edges are left out, the one of the pending edge excepted. -/
def MergeSkips (pending : Option Nat) (C : Nat → List Block) (i : Nat) : Prop :=
  (chainEdges (C i)).length = 0 ∧ pending ≠ some i

instance (pending : Option Nat) (C : Nat → List Block) (i : Nat) :
    Decidable (MergeSkips pending C i) :=
  inferInstanceAs (Decidable (_ ∧ _))

/-- Slots vertex `i` takes after the merge. -/
def mergeCost (pending : Option Nat) (C : Nat → List Block) (i : Nat) : Nat :=
  if MergeSkips pending C i then 0 else 3 + 2 ^ sizeToOrder (mergedSize pending C i)

theorem mergeCost_le {pending : Option Nat} {i : Nat} (h : ChainOk tracked stride seg (C i)) :
    mergeCost pending C i ≤ 2 * chainSlots (C i) + if pending = some i then 4 else 0 := by
  have hslots := h.edges_le_slots
  unfold mergeCost
  by_cases hskip : MergeSkips pending C i
  · rw [if_pos hskip]
    omega
  · rw [if_neg hskip]
    unfold MergeSkips at hskip
    by_cases hp : pending = some i
    · have hpos : 0 < mergedSize pending C i := by
        rw [mergedSize, if_pos hp]
        omega
      have hlt := two_pow_sizeToOrder_lt hpos
      rw [if_pos hp]
      rw [mergedSize, if_pos hp] at hlt ⊢
      omega
    · have hn : (chainEdges (C i)).length ≠ 0 := fun h0 => hskip ⟨h0, hp⟩
      have hpos : 0 < mergedSize pending C i := by
        rw [mergedSize, if_neg hp]
        omega
      have hlt := two_pow_sizeToOrder_lt hpos
      have hne : C i ≠ [] := by
        intro hnil
        rw [hnil] at hn
        exact hn rfl
      rw [if_neg hne] at hslots
      rw [if_neg hp]
      rw [mergedSize, if_neg hp] at hlt ⊢
      omega

theorem SegInv.mergeCost_sum (h : SegInv tracked stride seg C) (pending : Option Nat) :
    ∑ i ∈ Finset.range vertexPerSeg, mergeCost pending C i ≤ 2 * seg.allocatedEdgeNum + 4 := by
  have hpoint : ∀ i ∈ Finset.range vertexPerSeg, mergeCost pending C i ≤
      2 * chainSlots (C i) + if pending = some i then 4 else 0 := fun i _ => mergeCost_le (h.chain i)
  have hite : ∑ i ∈ Finset.range vertexPerSeg, (if pending = some i then 4 else 0) ≤ 4 := by
    cases pending with
    | none => simp
    | some p =>
      simp only [Option.some.injEq]
      rw [Finset.sum_ite_eq]
      split <;> omega
  have hslots := h.slots
  calc ∑ i ∈ Finset.range vertexPerSeg, mergeCost pending C i
      ≤ ∑ i ∈ Finset.range vertexPerSeg, (2 * chainSlots (C i) + if pending = some i then 4 else 0) :=
        Finset.sum_le_sum hpoint
    _ = 2 * ∑ i ∈ Finset.range vertexPerSeg, chainSlots (C i) +
          ∑ i ∈ Finset.range vertexPerSeg, (if pending = some i then 4 else 0) := by
        rw [Finset.sum_add_distrib, Finset.mul_sum]
    _ ≤ 2 * seg.allocatedEdgeNum + 4 := by omega

theorem SegInv.merge_fits (h : SegInv tracked stride seg C) (hstride : stride ≤ 16382)
    (pending : Option Nat) :
    Fits stride (∑ i ∈ Finset.range vertexPerSeg, mergeCost pending C i) (seg.order + 1) := by
  have hsum := h.mergeCost_sum pending
  have hfits := h.fits
  unfold Fits at hfits ⊢
  have hmul : (∑ i ∈ Finset.range vertexPerSeg, mergeCost pending C i) * stride ≤
      (2 * seg.allocatedEdgeNum + 4) * stride := Nat.mul_le_mul_right _ hsum
  have hexp : (2 * seg.allocatedEdgeNum + 4) * stride
      = 2 * (seg.allocatedEdgeNum * stride) + 4 * stride := by ring
  have hpow : 2 ^ (seg.order + 1) = 2 * 2 ^ seg.order := by ring
  have hheader : segmentHeaderSize = 65560 := rfl
  omega

end

/-! ### Copying a chain -/

section
variable {tracked : Prop} {stride : Nat} {C : Nat → List Block}

/-- What a merge reads: the chains of the old segment, wherever its counter is. -/
structure MergeSource (tracked : Prop) (stride : Nat) (old : VegitoSegment)
    (C : Nat → List Block) : Prop where
  region : ∀ i, old.regionPtrs i = chainPtr old.head (C i)
  chain : ∀ i, ChainOk tracked stride old (C i)
  inside : ∃ total, Fits stride total old.order ∧ ∀ i, ∀ b ∈ C i, b.stop ≤ total

theorem SegInv.mergeSource {seg : VegitoSegment} (h : SegInv tracked stride seg C) (order : Nat) :
    MergeSource tracked stride (bumped seg order) C where
  region := h.region
  chain i := (h.chain i).congr rfl rfl rfl
  inside := ⟨seg.allocatedEdgeNum, h.fits, h.inside⟩

theorem MergeSource.readable {old : VegitoSegment} (h : MergeSource tracked stride old C) {i : Nat}
    {b : Block} (hb : b ∈ C i) : Readable tracked stride old (b.pointer old.head) b := by
  obtain ⟨total, hfits, hin⟩ := h.inside
  have hch := (h.chain i).chain_of_mem hb
  exact ⟨rfl, hch.1, hch.2, total, hfits, hin i b hb⟩

variable {old seg : VegitoSegment} {b : Block} {prevNum prevPtr total width newBlock : Nat}

theorem copyChain_spec {c : List Block}
    (hsrc : ∀ d ∈ c, Readable tracked stride old (d.pointer old.head) d)
    (hptr : newBlock = b.pointer seg.head)
    (h : BlockWords seg b prevNum prevPtr) (hp : BlockProps tracked stride seg b)
    (hspace : b.edges.length + (chainEdges c).length ≤ 2 ^ b.order)
    (hnum : b.edges.length + (chainEdges c).length < 2 ^ 32)
    (hwidth : width ≤ stride) (htrack : tracked → width = stride)
    (hfits : Fits stride total seg.order) (hin : b.stop ≤ total) :
    Ensures (((c.map fun d => d.pointer old.head).reverse).foldlM
        (fun s d => VegitoSegment.copyEntries (fun _ => old) d newBlock width s) seg)
      (fun seg' => Frame tracked stride total b.slot b.stop seg seg' ∧
        BlockWords seg' (b.append (chainEdges c)) prevNum prevPtr ∧
        BlockProps tracked stride seg' (b.append (chainEdges c))) Never := by
  induction c with
  | nil =>
    simp only [List.map_nil, List.reverse_nil, List.foldlM_nil, ensures_pure, chainEdges,
      Block.append_nil]
    exact ⟨Frame.refl, h, hp⟩
  | cons d rest ih =>
    simp only [chainEdges, List.length_append] at hspace hnum
    rw [List.map_cons, List.reverse_cons, List.foldlM_append]
    refine Ensures.bind (ih (fun k hk => hsrc k (List.mem_cons_of_mem _ hk)) (by omega)
      (by omega)) ?_
    rintro s ⟨hf, hw, hpr⟩
    simp only [List.foldlM_cons, List.foldlM_nil, bind_pure]
    have hlen : (b.append (chainEdges rest)).edges.length
        = b.edges.length + (chainEdges rest).length := by simp
    have hcopy := copyEntries_spec (o := d)
      (fun s' _ => hsrc d List.mem_cons_self) hw hpr
      (by rw [hlen, Block.append_order]; omega) (by rw [hlen]; omega) hwidth htrack
      (by rw [hf.order]; exact hfits) hin
    rw [Block.append_pointer, hf.head, ← hptr] at hcopy
    refine hcopy.imp ?_
    rintro s' ⟨hf', hw', hp'⟩
    rw [Block.append_append] at hw' hp'
    exact ⟨hf.trans hf', hw', hp'⟩

end

/-! ### The loop over the vertices -/

section
variable {tracked : Prop} {stride : Nat} {C : Nat → List Block}

/-- The chain of vertex `i` in the new segment. -/
def MergedChain (pending : Option Nat) (C : Nat → List Block) (i : Nat) (c : List Block) : Prop :=
  if MergeSkips pending C i then c = []
  else ∃ b, c = [b] ∧ b.edges = chainEdges (C i) ∧ b.order = sizeToOrder (mergedSize pending C i)

/-- The new segment after the vertices below `k`. -/
structure Merging (tracked : Prop) (stride : Nat) (old new0 : VegitoSegment)
    (pending : Option Nat) (C : Nat → List Block) (k : Nat) (state : VegitoSegment × Nat)
    (C' : Nat → List Block) : Prop where
  inv : SegInv tracked stride state.1 C'
  done : ∀ i, i < k → MergedChain pending C i (C' i)
  ahead : ∀ i, k ≤ i → C' i = []
  allocated : state.1.allocatedEdgeNum ≤ ∑ i ∈ Finset.range k, mergeCost pending C i
  order : state.1.order = new0.order
  head : state.1.head = new0.head
  segmentId : state.1.segmentId = new0.segmentId
  tables : ∀ i, state.1.epochTables i =
    if i < k ∧ ¬ MergeSkips pending C i then old.epochTables i else 0
  pendingBlock : ∀ p, pending = some p → p < k → state.2 = chainPtr new0.head (C' p)

variable {old new0 : VegitoSegment} {pending : Option Nat} {width : Nat}

theorem Merging.skip {k : Nat} {state : VegitoSegment × Nat} {C' : Nat → List Block}
    (h : Merging tracked stride old new0 pending C k state C') (hskip : MergeSkips pending C k) :
    Merging tracked stride old new0 pending C (k + 1) state C' where
  inv := h.inv
  done i hi := by
    by_cases hik : i = k
    · subst hik
      rw [MergedChain, if_pos hskip]
      exact h.ahead i (Nat.le_refl i)
    · exact h.done i (by omega)
  ahead i hi := h.ahead i (by omega)
  allocated := h.allocated.trans (Finset.sum_le_sum_of_subset (Finset.range_mono (by omega)))
  order := h.order
  head := h.head
  segmentId := h.segmentId
  tables i := by
    rw [h.tables]
    by_cases hik : i = k
    · subst hik
      rw [if_neg (by omega), if_neg (by tauto)]
    · have hiff : i < k ↔ i < k + 1 := by omega
      simp only [hiff]
  pendingBlock p hp hlt := by
    by_cases hpk : p = k
    · subst hpk
      exact absurd hp hskip.2
    · exact h.pendingBlock p hp (by omega)

theorem Fits.mono_total {total total' order : Nat} (h : Fits stride total order)
    (hle : total' ≤ total) : Fits stride total' order := by
  have hmul : total' * stride ≤ total * stride := Nat.mul_le_mul_right _ hle
  unfold Fits at h ⊢
  omega

theorem mergeBlocks_spec {k order : Nat} {new : VegitoSegment} {C' : Nat → List Block}
    (hold : MergeSource tracked stride old C) (h : SegInv tracked stride new C')
    (hfits : Fits stride (new.allocatedEdgeNum + (3 + 2 ^ order)) new.order)
    (hspace : (chainEdges (C k)).length ≤ 2 ^ order) (hnum : (chainEdges (C k)).length < 2 ^ 32)
    (hwidth : width ≤ stride) (htrack : tracked → width = stride) :
    Ensures (old.mergeBlocks ((C k).map fun b => b.pointer old.head) order width k new)
      (fun merged => ∃ b, b.edges = chainEdges (C k) ∧ b.order = order ∧
        merged.1 = b.pointer new.head ∧
        SegInv tracked stride merged.2 (Function.update C' k [b]) ∧
        merged.2.allocatedEdgeNum = new.allocatedEdgeNum + (3 + 2 ^ order) ∧
        merged.2.order = new.order ∧ merged.2.head = new.head ∧
        merged.2.segmentId = new.segmentId ∧
        merged.2.epochTables = Function.update new.epochTables k (old.epochTables k)) Never := by
  have hinv : SegInv tracked stride (bumped new order) C' := h.allocate hfits
  have halloc : new.alloc order width =
      ((nextBlock new order).pointer new.head, bumped new order) := by
    refine Prod.ext ?_ (alloc_snd order width)
    rw [alloc_fst, if_pos (hfits.mono hwidth)]
  unfold VegitoSegment.mergeBlocks
  rw [halloc]
  simp only [if_neg (Block.pointer_ne_zero _ _)]
  -- the index is set before the block is filled
  generalize hseg0 : ((bumped new order).setRegionPtr k
    ((nextBlock new order).pointer new.head)).setEpochTable k (old.epochTables k) = seg0
  have hhead : seg0.head = new.head := by
    rw [← hseg0]
    rfl
  have hfits0 : Fits stride (bumped new order).allocatedEdgeNum seg0.order := by
    rw [← hseg0]
    exact hfits
  have hfill : Frame tracked stride (bumped new order).allocatedEdgeNum (nextBlock new order).slot
      (nextBlock new order).stop seg0 (seg0.fillBlock ((nextBlock new order).pointer seg0.head)
        (nextBlock new order).order 0 0) := fillBlock_frame hfits0 (Nat.le_refl _)
  have hwords : BlockWords (seg0.fillBlock ((nextBlock new order).pointer seg0.head)
      (nextBlock new order).order 0 0) (nextBlock new order) 0 0 :=
    fillBlock_words (by omega) (by omega)
      (hinv.order_lt (b := nextBlock new order) (Nat.le_refl _)) rfl
  have hord : (nextBlock new order).order = order := rfl
  rw [hhead, hord] at hfill hwords
  generalize seg0.fillBlock ((nextBlock new order).pointer new.head) order 0 0 = seg1
    at hfill hwords
  have hptr : (nextBlock new order).pointer new.head = (nextBlock new order).pointer seg1.head := by
    rw [hfill.head, hhead]
  have hcopy := copyChain_spec (c := C k) (fun d hd => hold.readable hd) hptr hwords
    (by intro _ j hj; simp [nextBlock] at hj)
    (by simp only [nextBlock, List.length_nil]; omega)
    (by simp only [nextBlock, List.length_nil]; omega) hwidth htrack
    (by rw [hfill.order]; exact hfits0) (Nat.le_refl _)
  refine Ensures.bind hcopy ?_
  rintro seg2 ⟨hf2, hw2, hp2⟩
  have hf := hfill.trans hf2
  refine ⟨(nextBlock new order).append (chainEdges (C k)), by simp [nextBlock], rfl, rfl, ?_, ?_, ?_,
    ?_, ?_, ?_⟩
  · refine hinv.replace ?_ ?_ ?_ ?_ ?_ hf ?_ ?_ ?_ ?_ ?_
    · rw [← hseg0]; rfl
    · rw [← hseg0]; rfl
    · rw [← hseg0]; rfl
    · rw [← hseg0]; rfl
    · rw [← hseg0]; rfl
    · intro j _ d hd
      exact Or.inl (h.inside j d hd)
    · exact ⟨hw2, hp2, by simp, fun _ => rfl, trivial⟩
    · intro d hd
      rw [List.mem_singleton] at hd
      subst hd
      exact Nat.le_refl _
    · intro j _ d hd e he
      rw [List.mem_singleton] at hd
      subst hd
      exact Or.inr (h.inside j e he)
    · have hle : chainSlots [(nextBlock new order).append (chainEdges (C k))] ≤
          chainSlots (C' k) + (3 + 2 ^ order) := by
        simp only [chainSlots, Block.append_order, nextBlock]
        omega
      have hsum := sum_update_le C' k _ _ hle
      have hslots := h.slots
      simp only [bumped]
      omega
  · rw [hf.allocated, ← hseg0]
    rfl
  · rw [hf.order, ← hseg0]
    rfl
  · rw [hf.head, hhead]
  · rw [hf.segmentId, ← hseg0]
    rfl
  · rw [hf.tables, ← hseg0]
    rfl

theorem mergeBlocks_full {seg new : VegitoSegment} {blocks : List Nat} {order i : Nat}
    (hfull : ¬ Fits width (new.allocatedEdgeNum + (3 + 2 ^ order)) new.order) :
    seg.mergeBlocks blocks order width i new = .error .nullBlock := by
  unfold VegitoSegment.mergeBlocks
  dsimp only
  rw [alloc_fst, if_neg hfull, if_pos rfl]

theorem Merging.step {k : Nat} {state : VegitoSegment × Nat} {merged : Nat × VegitoSegment}
    {C' : Nat → List Block} {b : Block}
    (h : Merging tracked stride old new0 pending C k state C') (hskip : ¬ MergeSkips pending C k)
    (hedges : b.edges = chainEdges (C k)) (hord : b.order = sizeToOrder (mergedSize pending C k))
    (hptr : merged.1 = b.pointer state.1.head)
    (hinv : SegInv tracked stride merged.2 (Function.update C' k [b]))
    (halloc : merged.2.allocatedEdgeNum =
      state.1.allocatedEdgeNum + (3 + 2 ^ sizeToOrder (mergedSize pending C k)))
    (horder : merged.2.order = state.1.order) (hhead : merged.2.head = state.1.head)
    (hid : merged.2.segmentId = state.1.segmentId)
    (htables : merged.2.epochTables =
      Function.update state.1.epochTables k (old.epochTables k)) :
    Merging tracked stride old new0 pending C (k + 1)
      (merged.2, if pending = some k then merged.1 else state.2) (Function.update C' k [b]) where
  inv := hinv
  done i hi := by
    by_cases hik : i = k
    · subst hik
      rw [Function.update_self, MergedChain, if_neg hskip]
      exact ⟨b, rfl, hedges, hord⟩
    · rw [Function.update_of_ne hik]
      exact h.done i (by omega)
  ahead i hi := by
    rw [Function.update_of_ne (by omega)]
    exact h.ahead i (by omega)
  allocated := by
    have hall := h.allocated
    have hsucc := Finset.sum_range_succ (mergeCost pending C) k
    rw [mergeCost, if_neg hskip] at hsucc
    simp only [halloc]
    omega
  order := horder.trans h.order
  head := hhead.trans h.head
  segmentId := hid.trans h.segmentId
  tables i := by
    simp only [htables]
    by_cases hik : i = k
    · subst hik
      rw [Function.update_self, if_pos ⟨by omega, hskip⟩]
    · have hiff : i < k ↔ i < k + 1 := by omega
      rw [Function.update_of_ne hik, h.tables]
      simp only [hiff]
  pendingBlock p hp hlt := by
    by_cases hpk : p = k
    · subst hpk
      rw [Function.update_self]
      simp only [if_pos hp, chainPtr]
      rw [hptr, h.head]
    · have hne : ¬ pending = some k := by
        rw [hp]
        simpa using hpk
      rw [Function.update_of_ne hpk]
      simp only [if_neg hne]
      exact h.pendingBlock p hp (by omega)

theorem mergeVertex_spec {k : Nat} {state : VegitoSegment × Nat} {C' : Nat → List Block}
    (hold : MergeSource tracked stride old C)
    (h : Merging tracked stride old new0 pending C k state C') (hk : k < vertexPerSeg)
    (hroom : Fits stride (∑ i ∈ Finset.range vertexPerSeg, mergeCost pending C i) new0.order ∨ width = stride)
    (hnum : (chainEdges (C k)).length < 2 ^ 32)
    (hwidth : width ≤ stride) (htrack : tracked → width = stride) :
    Ensures (old.mergeVertex pending width k state)
      (fun state' => ∃ C', Merging tracked stride old new0 pending C (k + 1) state' C')
      (fun _ => ¬ Fits stride (∑ i ∈ Finset.range vertexPerSeg, mergeCost pending C i) new0.order) := by
  have hblocks := (hold.chain k).chainBlocks_chainLimit
  rw [← hold.region k] at hblocks
  unfold VegitoSegment.mergeVertex
  rw [hblocks]
  simp only [bind, Except.bind, (hold.chain k).sum_numEntries]
  by_cases hskip : MergeSkips pending C k
  · rw [if_pos (by unfold MergeSkips at hskip; exact hskip)]
    exact ⟨C', h.skip hskip⟩
  · rw [if_neg (by unfold MergeSkips at hskip; exact hskip)]
    have hsize : (if pending = some k then (chainEdges (C k)).length + 1
        else (chainEdges (C k)).length) = mergedSize pending C k := rfl
    rw [hsize]
    have hspace : (chainEdges (C k)).length ≤ 2 ^ sizeToOrder (mergedSize pending C k) := by
      have hle := le_two_pow_sizeToOrder (mergedSize pending C k)
      have hsz : (chainEdges (C k)).length ≤ mergedSize pending C k := by
        unfold mergedSize
        split <;> omega
      omega
    -- the blocks up to this one fit when all of them do
    have hpart : Fits stride (∑ i ∈ Finset.range vertexPerSeg, mergeCost pending C i) new0.order →
        Fits stride (state.1.allocatedEdgeNum +
          (3 + 2 ^ sizeToOrder (mergedSize pending C k))) state.1.order := by
      intro hroom
      have hall := h.allocated
      have hsucc := Finset.sum_range_succ (mergeCost pending C) k
      rw [mergeCost, if_neg hskip] at hsucc
      have hmono : ∑ i ∈ Finset.range (k + 1), mergeCost pending C i ≤
          ∑ i ∈ Finset.range vertexPerSeg, mergeCost pending C i :=
        Finset.sum_le_sum_of_subset (Finset.range_mono (by omega))
      rw [h.order]
      exact hroom.mono_total (by omega)
    by_cases hfits : Fits stride (state.1.allocatedEdgeNum +
        (3 + 2 ^ sizeToOrder (mergedSize pending C k))) state.1.order
    · refine Ensures.bind ((mergeBlocks_spec hold h.inv hfits hspace hnum hwidth htrack).mono
        (fun _ hq => hq) (fun _ hf => hf.elim)) ?_
      rintro merged ⟨b, hedges, hord, hptr, hinv, halloc, horder, hhead, hid, htables⟩
      exact ⟨_, h.step hskip hedges hord hptr hinv halloc horder hhead hid htables⟩
    · have hexact : width = stride := hroom.resolve_left fun hall => hfits (hpart hall)
      rw [← hexact] at hfits
      rw [mergeBlocks_full hfits]
      exact fun hall => hfits (by rw [hexact]; exact hpart hall)

theorem mergeSegment_spec {edgeBlock : Nat} (hold : MergeSource tracked stride old C)
    (hnew : SegInv tracked stride new0 fun _ => []) (hempty : new0.allocatedEdgeNum = 0)
    (htables : new0.epochTables = fun _ => 0)
    (hroom : Fits stride (∑ i ∈ Finset.range vertexPerSeg, mergeCost pending C i) new0.order ∨ width = stride)
    (hnum : ∀ i, i < vertexPerSeg → (chainEdges (C i)).length < 2 ^ 32)
    (hwidth : width ≤ stride) (htrack : tracked → width = stride) :
    Ensures (old.mergeSegment new0 pending edgeBlock width)
      (fun state => ∃ C', Merging tracked stride old new0 pending C vertexPerSeg state C')
      (fun _ => ¬ Fits stride (∑ i ∈ Finset.range vertexPerSeg, mergeCost pending C i) new0.order) := by
  have hloop := forRange_invariant (f := old.mergeVertex pending width)
    (I := fun k state => ∃ C', Merging tracked stride old new0 pending C k state C')
    (E := fun _ => ¬ Fits stride (∑ i ∈ Finset.range vertexPerSeg, mergeCost pending C i) new0.order)
    (i := 0) (n := vertexPerSeg) (s := (new0, edgeBlock)) ?_ ?_
  · rw [Nat.zero_add] at hloop
    exact hloop
  · refine ⟨fun _ => [], hnew, ?_, fun _ _ => rfl, ?_, rfl, rfl, rfl, ?_, ?_⟩
    · intro i hi
      omega
    · simp [hempty]
    · intro i
      simp [htables]
    · intro p _ hp
      omega
  · rintro k state - hk ⟨C', hC'⟩
    rw [Nat.zero_add] at hk
    exact mergeVertex_spec hold hC' hk hroom (hnum k hk) hwidth htrack

end

end Gart.Seggraph
