import Mathlib.Algebra.BigOperators.Group.Finset.Piecewise
import Mathlib.Algebra.Order.BigOperators.Group.Finset
import Gart.Seggraph.EdgeBlockOps

/-!
# The layout of a segment

Every vertex of a segment has a chain of edge blocks, newest first. The
invariant `SegInv` says where the chains lie: disjoint, inside the allocated
slots, and so that the property slots of all allocated slots stay above the
entries. Appending an edge and growing a block keep it.
-/

namespace Gart.Seggraph
open Gart.ByteMemory Gart.Outcome

/-! ### Chains -/

def chainPtr (head : Nat) : List Block → Nat
  | [] => 0
  | b :: _ => b.pointer head

def chainEdges : List Block → List Edge
  | [] => []
  | b :: rest => chainEdges rest ++ b.edges

def chainSlots : List Block → Nat
  | [] => 0
  | b :: rest => (3 + 2 ^ b.order) + chainSlots rest

/-- The bytes of a segment hold a chain: a block refers to the older ones, lies
behind them, and has a larger order; small blocks have no older one. -/
def ChainOk (tracked : Prop) (stride : Nat) (seg : VegitoSegment) : List Block → Prop
  | [] => True
  | b :: rest =>
    BlockWords seg b (chainEdges rest).length (chainPtr seg.head rest) ∧
    BlockProps tracked stride seg b ∧
    (∀ c ∈ rest, c.stop ≤ b.slot ∧ c.order < b.order) ∧
    (b.order < copyThresholdOrder → rest = []) ∧
    ChainOk tracked stride seg rest

section chains
variable {tracked : Prop} {stride total s0 s1 : Nat} {seg seg' : VegitoSegment}

theorem chainPtr_eq_zero {head : Nat} {c : List Block} : chainPtr head c = 0 ↔ c = [] := by
  cases c with
  | nil => simp [chainPtr]
  | cons b rest =>
    simp only [chainPtr, Block.pointer, segmentHeaderSize, reduceCtorEq, iff_false]
    omega

theorem BlockWords.congr {b : Block} {prevNum prevPtr : Nat}
    (h : BlockWords seg b prevNum prevPtr) (hbody : seg'.body = seg.body) :
    BlockWords seg' b prevNum prevPtr :=
  ⟨by rw [hbody]; exact h.order, by rw [hbody]; exact h.num, by rw [hbody]; exact h.prevNum,
    by rw [hbody]; exact h.prevPtr, by rw [hbody]; exact h.entry, h.room⟩

theorem BlockProps.congr {b : Block} (h : BlockProps tracked stride seg b)
    (hbody : seg'.body = seg.body) (horder : seg'.order = seg.order) :
    BlockProps tracked stride seg' b := by
  intro ht i hi
  simp only [VegitoSegment.blockSize, hbody, horder]
  exact h ht i hi

theorem ChainOk.congr {c : List Block} (h : ChainOk tracked stride seg c)
    (hbody : seg'.body = seg.body) (horder : seg'.order = seg.order)
    (hhead : seg'.head = seg.head) : ChainOk tracked stride seg' c := by
  induction c with
  | nil => trivial
  | cons b rest ih =>
    obtain ⟨hw, hp, hbelow, hsmall, hrest⟩ := h
    rw [← hhead] at hw
    exact ⟨hw.congr hbody, hp.congr hbody horder, hbelow, hsmall, ih hrest⟩

theorem ChainOk.of_frame {c : List Block} (h : ChainOk tracked stride seg c)
    (hf : Frame tracked stride total s0 s1 seg seg')
    (hout : ∀ b ∈ c, b.stop ≤ s0 ∨ s1 ≤ b.slot) (hin : ∀ b ∈ c, b.stop ≤ total)
    (hfits : Fits stride total seg.order) : ChainOk tracked stride seg' c := by
  induction c with
  | nil => trivial
  | cons b rest ih =>
    obtain ⟨hw, hp, hbelow, hsmall, hrest⟩ := h
    have hob := hout b List.mem_cons_self
    have hib := hin b List.mem_cons_self
    rw [← hf.head] at hw
    refine ⟨hw.of_frame hf hob hib hfits, hp.of_frame hf hw.room hob hib hfits, hbelow, hsmall, ?_⟩
    exact ih hrest (fun d hd => hout d (List.mem_cons_of_mem _ hd))
      (fun d hd => hin d (List.mem_cons_of_mem _ hd))

theorem ChainOk.order_lt {b : Block} {rest : List Block}
    (h : ChainOk tracked stride seg (b :: rest)) : b.order < 256 := by
  rw [← h.1.order]
  exact load_lt _ _ _

theorem ChainOk.length_le {b : Block} {rest : List Block}
    (h : ChainOk tracked stride seg (b :: rest)) : (b :: rest).length ≤ b.order + 1 := by
  induction rest generalizing b with
  | nil => simp
  | cons d rest ih =>
    obtain ⟨_, _, hbelow, _, hrest⟩ := h
    have hlt := (hbelow d List.mem_cons_self).2
    have hlen := ih hrest
    simp only [List.length_cons] at hlen ⊢
    omega

theorem ChainOk.chainBlocks {c : List Block} (h : ChainOk tracked stride seg c) {fuel : Nat}
    (hfuel : c.length ≤ fuel) :
    seg.chainBlocks fuel (chainPtr seg.head c) = .ok (c.map fun b => b.pointer seg.head) := by
  induction c generalizing fuel with
  | nil =>
    unfold VegitoSegment.chainBlocks
    simp [chainPtr]
  | cons b rest ih =>
    have hne : chainPtr seg.head (b :: rest) ≠ 0 := by
      rw [Ne, chainPtr_eq_zero]
      simp
    obtain ⟨hw, _, _, _, hrest⟩ := h
    cases fuel with
    | zero => simp at hfuel
    | succ fuel =>
      rw [List.length_cons] at hfuel
      unfold VegitoSegment.chainBlocks
      rw [if_neg hne]
      simp only [chainPtr]
      rw [hw.getPrevPointer, ih hrest (by omega)]
      rfl

theorem ChainOk.chainBlocks_chainLimit {c : List Block} (h : ChainOk tracked stride seg c) :
    seg.chainBlocks chainLimit (chainPtr seg.head c) =
      .ok (c.map fun b => b.pointer seg.head) := by
  apply h.chainBlocks
  cases c with
  | nil => simp
  | cons b rest =>
    have hlen := h.length_le
    have hord := h.order_lt
    unfold chainLimit
    omega

theorem ChainOk.chain_of_mem {c : List Block} (h : ChainOk tracked stride seg c) {b : Block}
    (hb : b ∈ c) : (∃ prevNum prevPtr, BlockWords seg b prevNum prevPtr) ∧
      BlockProps tracked stride seg b := by
  induction c with
  | nil => simp at hb
  | cons d rest ih =>
    obtain ⟨hw, hp, _, _, hrest⟩ := h
    rcases List.mem_cons.mp hb with rfl | hb
    · exact ⟨⟨_, _, hw⟩, hp⟩
    · exact ih hrest hb

theorem ChainOk.sum_numEntries {c : List Block} (h : ChainOk tracked stride seg c) :
    ((c.map fun b => b.pointer seg.head).map seg.getNumEntries).sum = (chainEdges c).length := by
  induction c with
  | nil => rfl
  | cons b rest ih =>
    obtain ⟨hw, _, _, _, hrest⟩ := h
    simp only [List.map_cons, List.sum_cons, chainEdges, List.length_append, ih hrest,
      hw.getNumEntries]
    omega

theorem ChainOk.edges_le_slots {c : List Block} (h : ChainOk tracked stride seg c) :
    (chainEdges c).length + (if c = [] then 0 else 3) ≤ chainSlots c := by
  induction c with
  | nil => simp [chainEdges, chainSlots]
  | cons b rest ih =>
    obtain ⟨hw, _, _, _, hrest⟩ := h
    have hroom := hw.room
    have hle := ih hrest
    simp only [chainEdges, chainSlots, List.length_append, reduceCtorEq, if_false]
    omega

end chains

/-! ### The segment -/

structure SegInv (tracked : Prop) (stride : Nat) (seg : VegitoSegment) (C : Nat → List Block) :
    Prop where
  fits : Fits stride seg.allocatedEdgeNum seg.order
  region : ∀ i, seg.regionPtrs i = chainPtr seg.head (C i)
  chain : ∀ i, ChainOk tracked stride seg (C i)
  inside : ∀ i, ∀ b ∈ C i, b.stop ≤ seg.allocatedEdgeNum
  apart : ∀ i j, i ≠ j → ∀ b ∈ C i, ∀ c ∈ C j, b.stop ≤ c.slot ∨ c.stop ≤ b.slot
  slots : ∑ i ∈ Finset.range vertexPerSeg, chainSlots (C i) ≤ seg.allocatedEdgeNum
  address : seg.head + 2 ^ seg.order ≤ 2 ^ 64

section segment
variable {tracked : Prop} {stride : Nat} {seg seg' : VegitoSegment} {C : Nat → List Block}

theorem segInv_fill {head order segid : Nat} (hsize : segmentHeaderSize ≤ 2 ^ order)
    (haddr : head + 2 ^ order ≤ 2 ^ 64) :
    SegInv tracked stride (seg.fill head order segid) fun _ => [] where
  fits := by
    simp only [Fits, VegitoSegment.fill]
    omega
  region _ := rfl
  chain _ := trivial
  inside _ b hb := by simp at hb
  apart _ _ _ b hb := by simp at hb
  slots := by simp [chainSlots]
  address := haddr

theorem sum_update_le (C : Nat → List Block) (i : Nat) (c : List Block) (k : Nat)
    (h : chainSlots c ≤ chainSlots (C i) + k) :
    ∑ j ∈ Finset.range vertexPerSeg, chainSlots (Function.update C i c j) ≤
      (∑ j ∈ Finset.range vertexPerSeg, chainSlots (C j)) + k := by
  have hpoint : ∀ j ∈ Finset.range vertexPerSeg, chainSlots (Function.update C i c j) ≤
      chainSlots (C j) + if j = i then k else 0 := by
    intro j _
    by_cases hj : j = i
    · subst hj
      simpa using h
    · rw [Function.update_of_ne hj, if_neg hj]
      omega
  refine (Finset.sum_le_sum hpoint).trans ?_
  rw [Finset.sum_add_distrib, Finset.sum_ite_eq']
  split <;> omega

/-- The rule behind every change of one chain: the new chain of vertex `i` is
in place, and no other chain uses the slots `s0..s1` whose bytes change. `seg0`
is `seg` with the index already pointing at the new chain. -/
theorem SegInv.replace {seg0 : VegitoSegment} {s0 s1 i : Nat} {c : List Block}
    (h : SegInv tracked stride seg C)
    (hbody : seg0.body = seg.body) (horder : seg0.order = seg.order) (hhead : seg0.head = seg.head)
    (halloc : seg0.allocatedEdgeNum = seg.allocatedEdgeNum)
    (hregion : seg0.regionPtrs = Function.update seg.regionPtrs i (chainPtr seg.head c))
    (hf : Frame tracked stride seg.allocatedEdgeNum s0 s1 seg0 seg')
    (hout : ∀ j, j ≠ i → ∀ b ∈ C j, b.stop ≤ s0 ∨ s1 ≤ b.slot)
    (hchain : ChainOk tracked stride seg' c)
    (hinside : ∀ b ∈ c, b.stop ≤ seg.allocatedEdgeNum)
    (hapart : ∀ j, j ≠ i → ∀ b ∈ c, ∀ d ∈ C j, b.stop ≤ d.slot ∨ d.stop ≤ b.slot)
    (hslots : ∑ j ∈ Finset.range vertexPerSeg, chainSlots (Function.update C i c j)
      ≤ seg.allocatedEdgeNum) :
    SegInv tracked stride seg' (Function.update C i c) := by
  have hall : seg'.allocatedEdgeNum = seg.allocatedEdgeNum := hf.allocated.trans halloc
  have hord : seg'.order = seg.order := hf.order.trans horder
  have hhd : seg'.head = seg.head := hf.head.trans hhead
  refine ⟨?_, ?_, ?_, ?_, ?_, ?_, ?_⟩
  · rw [hall, hord]
    exact h.fits
  · intro j
    rw [hf.regions, hregion, hhd]
    by_cases hj : j = i
    · subst hj
      simp only [Function.update_self]
    · simp only [Function.update_of_ne hj]
      exact h.region j
  · intro j
    by_cases hj : j = i
    · subst hj
      rw [Function.update_self]
      exact hchain
    · rw [Function.update_of_ne hj]
      have hold := (h.chain j).congr hbody horder hhead
      exact hold.of_frame hf (hout j hj) (h.inside j) (by rw [horder]; exact h.fits)
  · intro j b hb
    rw [hall]
    by_cases hj : j = i
    · subst hj
      rw [Function.update_self] at hb
      exact hinside b hb
    · rw [Function.update_of_ne hj] at hb
      exact h.inside j b hb
  · intro j k hjk b hb d hd
    by_cases hj : j = i
    · subst hj
      rw [Function.update_self] at hb
      rw [Function.update_of_ne (Ne.symm hjk)] at hd
      exact hapart k (Ne.symm hjk) b hb d hd
    · rw [Function.update_of_ne hj] at hb
      by_cases hk : k = i
      · subst hk
        rw [Function.update_self] at hd
        exact (hapart j hj d hd b hb).symm
      · rw [Function.update_of_ne hk] at hd
        exact h.apart j k hjk b hb d hd
  · rw [hall]
    exact hslots
  · rw [hord, hhd]
    exact h.address

theorem SegInv.allocate (h : SegInv tracked stride seg C) {n : Nat}
    (hfits : Fits stride (seg.allocatedEdgeNum + n) seg.order) :
    SegInv tracked stride { seg with allocatedEdgeNum := seg.allocatedEdgeNum + n } C where
  fits := hfits
  region := h.region
  chain i := (h.chain i).congr rfl rfl rfl
  inside i b hb := Nat.le_add_right_of_le (h.inside i b hb)
  apart := h.apart
  slots := Nat.le_add_right_of_le h.slots
  address := h.address

theorem SegInv.setEpochTable (h : SegInv tracked stride seg C) (i pointer : Nat) :
    SegInv tracked stride (seg.setEpochTable i pointer) C where
  fits := h.fits
  region := h.region
  chain j := (h.chain j).congr rfl rfl rfl
  inside := h.inside
  apart := h.apart
  slots := h.slots
  address := h.address

theorem SegInv.pointer_lt (h : SegInv tracked stride seg C) {b : Block}
    (hin : b.stop ≤ seg.allocatedEdgeNum) : b.pointer seg.head < 2 ^ 64 := by
  have hfits := h.fits
  have haddr := h.address
  have hpow : 0 < 2 ^ b.order := Nat.two_pow_pos _
  unfold Fits at hfits
  unfold Block.stop at hin
  unfold Block.pointer
  omega

theorem SegInv.chainPtr_lt (h : SegInv tracked stride seg C) (i : Nat) :
    chainPtr seg.head (C i) < 2 ^ 64 := by
  cases hc : C i with
  | nil => simp [chainPtr]
  | cons b rest =>
    apply h.pointer_lt
    exact h.inside i b (by rw [hc]; exact List.mem_cons_self)

theorem SegInv.order_lt (h : SegInv tracked stride seg C) {b : Block}
    (hin : b.stop ≤ seg.allocatedEdgeNum) : b.order < 256 := by
  have hfits := h.fits
  have haddr := h.address
  unfold Fits at hfits
  unfold Block.stop at hin
  have hpow : 2 ^ b.order < 2 ^ 64 := by omega
  have hlt := (Nat.pow_lt_pow_iff_right (by norm_num : 1 < 2)).mp hpow
  omega

theorem SegInv.edges_length_le (h : SegInv tracked stride seg C) {idx : Nat}
    (hidx : idx < vertexPerSeg) : (chainEdges (C idx)).length ≤ seg.allocatedEdgeNum := by
  have hedges := (h.chain idx).edges_le_slots
  have hone : chainSlots (C idx) ≤ ∑ i ∈ Finset.range vertexPerSeg, chainSlots (C i) :=
    Finset.single_le_sum (f := fun i => chainSlots (C i)) (fun _ _ => Nat.zero_le _)
      (Finset.mem_range.mpr hidx)
  have hslots := h.slots
  omega

theorem SegInv.allocated_bytes (h : SegInv tracked stride seg C) :
    segmentHeaderSize + 8 * seg.allocatedEdgeNum ≤ seg.blockSize := by
  have hfits := h.fits
  unfold Fits at hfits
  have hsize : seg.blockSize = 2 ^ seg.order := rfl
  omega

theorem SegInv.readable (h : SegInv tracked stride seg C) {i : Nat} {b : Block} (hb : b ∈ C i) :
    Readable tracked stride seg (b.pointer seg.head) b := by
  have hch := (h.chain i).chain_of_mem hb
  exact ⟨rfl, hch.1, hch.2, seg.allocatedEdgeNum, h.fits, h.inside i b hb⟩

end segment

end Gart.Seggraph
