import Gart.Seggraph.SegmentInv

/-!
# Appending an edge and growing a block

The two ways an adjacency list changes inside its segment: an edge goes behind
the last one of the newest block, and a full block gets a successor, either a
copy of twice the size or a new block chained in front.
-/

namespace Gart.Seggraph
open Gart.ByteMemory Gart.Outcome

variable {tracked : Prop} {stride : Nat} {seg : VegitoSegment} {C : Nat → List Block}

/-- The parts of a segment that no operation on its blocks touches. -/
structure SameHeader (seg seg' : VegitoSegment) : Prop where
  order : seg'.order = seg.order
  head : seg'.head = seg.head
  segmentId : seg'.segmentId = seg.segmentId
  tables : seg'.epochTables = seg.epochTables

theorem Frame.sameHeader {total s0 s1 : Nat} {seg' : VegitoSegment}
    (h : Frame tracked stride total s0 s1 seg seg') : SameHeader seg seg' :=
  ⟨h.order, h.head, h.segmentId, h.tables⟩

/-! ### alloc -/

/-- The block `alloc` hands out next. -/
def nextBlock (seg : VegitoSegment) (order : Nat) : Block :=
  { slot := seg.allocatedEdgeNum, order := order, edges := [] }

/-- The segment after `alloc`, whether it failed or not. -/
def bumped (seg : VegitoSegment) (order : Nat) : VegitoSegment :=
  { seg with allocatedEdgeNum := seg.allocatedEdgeNum + (3 + 2 ^ order) }

theorem alloc_snd (order edgePropSize : Nat) :
    (seg.alloc order edgePropSize).2 = bumped seg order := by
  unfold VegitoSegment.alloc
  dsimp only
  split <;> rfl

theorem alloc_fst (order edgePropSize : Nat) :
    (seg.alloc order edgePropSize).1 =
      if Fits edgePropSize (seg.allocatedEdgeNum + (3 + 2 ^ order)) seg.order then
        (nextBlock seg order).pointer seg.head
      else 0 := by
  have hexp : segmentHeaderSize + (seg.allocatedEdgeNum + VegitoSegment.requireEdgeNum order) *
      (edgeEntrySize + edgePropSize) = segmentHeaderSize +
        (8 * (seg.allocatedEdgeNum + (3 + 2 ^ order)) +
          (seg.allocatedEdgeNum + (3 + 2 ^ order)) * edgePropSize) := by
    rw [requireEdgeNum_eq, Nat.mul_add, edgeEntrySize, Nat.mul_comm _ 8]
  have hsize : seg.blockSize = 2 ^ seg.order := rfl
  unfold VegitoSegment.alloc
  dsimp only
  by_cases hfits : Fits edgePropSize (seg.allocatedEdgeNum + (3 + 2 ^ order)) seg.order
  · rw [if_pos hfits]
    unfold Fits at hfits
    rw [if_neg (by omega)]
    simp only [Block.pointer, nextBlock, edgeEntrySize]
    omega
  · rw [if_neg hfits]
    unfold Fits at hfits
    rw [if_pos (by omega)]

theorem Block.pointer_ne_zero (b : Block) (head : Nat) : b.pointer head ≠ 0 := by
  simp only [Block.pointer, segmentHeaderSize]
  omega

theorem Fits.mono {width total order : Nat} (h : Fits stride total order)
    (hwidth : width ≤ stride) : Fits width total order := by
  have hle : total * width ≤ total * stride := Nat.mul_le_mul_left _ hwidth
  unfold Fits at h ⊢
  omega

/-! ### Appending -/

theorem SegInv.insertEdge {i : Nat} {b : Block} {rest : List Block} {e : Edge} {value : Bytes}
    (h : SegInv tracked stride seg C) (hC : C i = b :: rest)
    (hspace : b.edges.length < 2 ^ b.order) (hnum : (chainEdges (C i)).length + 1 < 2 ^ 32)
    (hdst : e.dst < 2 ^ 64) (hwidth : value.length ≤ stride)
    (htrack : tracked → value.length = stride) (hdata : tracked → value = e.data) :
    Ensures (seg.insertEdge (b.pointer seg.head) e.dst value)
      (fun seg' => SegInv tracked stride seg' (Function.update C i (b.push e :: rest)) ∧
        SameHeader seg seg') Never := by
  have hchain := h.chain i
  have hin := h.inside i
  rw [hC] at hchain hin
  obtain ⟨hw, hp, hbelow, hsmall, hrest⟩ := hchain
  have hinb := hin b List.mem_cons_self
  have hb : b ∈ C i := by
    rw [hC]
    exact List.mem_cons_self
  rw [hC] at hnum
  simp only [chainEdges, List.length_append] at hnum
  refine (insertEdge_spec hw hp hspace (by omega) hdst hwidth htrack hdata h.fits hinb).imp ?_
  rintro seg' ⟨hf, hw', hp'⟩
  refine ⟨h.replace rfl rfl rfl rfl ?_ hf ?_ ?_ ?_ ?_ ?_, hf.sameHeader⟩
  · have hreg := h.region i
    rw [hC] at hreg
    simp only [chainPtr, Block.push_pointer] at hreg ⊢
    rw [← hreg, Function.update_eq_self]
  · intro j hj d hd
    exact (h.apart i j (Ne.symm hj) b hb d hd).symm
  · rw [← hf.head] at hw'
    refine ⟨hw', hp', hbelow, hsmall, ?_⟩
    exact hrest.of_frame hf (fun d hd => Or.inl (hbelow d hd).1)
      (fun d hd => hin d (List.mem_cons_of_mem _ hd)) h.fits
  · intro d hd
    rcases List.mem_cons.mp hd with rfl | hd
    · exact hinb
    · exact hin d (List.mem_cons_of_mem _ hd)
  · intro j hj d hd k hk
    rcases List.mem_cons.mp hd with rfl | hd
    · exact h.apart i j (Ne.symm hj) b hb k hk
    · exact h.apart i j (Ne.symm hj) d (by rw [hC]; exact List.mem_cons_of_mem _ hd) k hk
  · have hsum := sum_update_le C i (b.push e :: rest) 0 (by rw [hC]; simp [chainSlots])
    have hslots := h.slots
    omega

/-! ### Growing -/

def nextOrder : List Block → Nat
  | [] => defaultInitOrder
  | b :: _ => b.order + 1

def HeadFull : List Block → Prop
  | [] => True
  | b :: _ => b.edges.length = 2 ^ b.order

/-- A grown block holds what the chain held, and has space. -/
structure Grown (seg : VegitoSegment) (pointer : Nat) (old : List Block) (b : Block)
    (rest : List Block) : Prop where
  pointer : pointer = b.pointer seg.head
  space : b.edges.length < 2 ^ b.order
  edges : chainEdges (b :: rest) = chainEdges old
  rest : rest = old ∨ rest = []

theorem Grown.older {seg : VegitoSegment} {pointer : Nat} {old rest : List Block} {b : Block}
    (h : Grown seg pointer old b rest) (hfull : HeadFull old)
    (hold : ∀ d older, old = d :: older → ∀ c ∈ older, c.edges ≠ []) : ∀ c ∈ rest, c.edges ≠ [] := by
  intro c hc
  rcases h.rest with heq | heq
  · subst heq
    cases rest with
    | nil => cases hc
    | cons d older =>
      rcases List.mem_cons.mp hc with rfl | hc
      · intro hnil
        have hpos : 0 < 2 ^ c.order := Nat.two_pow_pos _
        have hlen : c.edges.length = 2 ^ c.order := hfull
        rw [hnil, List.length_nil] at hlen
        omega
      · exact hold d older rfl c hc
  · rw [heq] at hc
    cases hc

theorem ChainOk.order_lt_nextOrder {c : List Block} (h : ChainOk tracked stride seg c) :
    ∀ d ∈ c, d.order < nextOrder c := by
  cases c with
  | nil => simp
  | cons b rest =>
    intro d hd
    simp only [nextOrder]
    rcases List.mem_cons.mp hd with rfl | hd
    · omega
    · have hlt := (h.2.2.1 d hd).2
      omega

section grow
variable {i width order : Nat}

theorem SegInv.chain_bumped (h : SegInv tracked stride seg C) {seg' : VegitoSegment}
    (hfits : Fits stride (seg.allocatedEdgeNum + (3 + 2 ^ order)) seg.order)
    (hf : Frame tracked stride (bumped seg order).allocatedEdgeNum (nextBlock seg order).slot
      (nextBlock seg order).stop (bumped seg order) seg') (j : Nat) :
    ChainOk tracked stride seg' (C j) :=
  ((h.allocate hfits).chain j).of_frame hf (fun b hb => Or.inl (h.inside j b hb))
    ((h.allocate hfits).inside j) hfits

theorem SegInv.grow {seg' : VegitoSegment} {b : Block} {rest : List Block}
    (h : SegInv tracked stride seg C)
    (hfits : Fits stride (seg.allocatedEdgeNum + (3 + 2 ^ order)) seg.order)
    (hf : Frame tracked stride (bumped seg order).allocatedEdgeNum (nextBlock seg order).slot
      (nextBlock seg order).stop (bumped seg order) seg')
    (hslot : b.slot = seg.allocatedEdgeNum) (hord : b.order = order)
    (hrest : rest = C i ∨ rest = []) (hchain : ChainOk tracked stride seg' (b :: rest)) :
    SegInv tracked stride (seg'.setRegionPtr i (b.pointer seg.head))
      (Function.update C i (b :: rest)) := by
  have hstop : b.stop = seg.allocatedEdgeNum + (3 + 2 ^ order) := by
    rw [Block.stop, hslot, hord]
  have hmem : ∀ d ∈ rest, d ∈ C i := by
    intro d hd
    rcases hrest with rfl | rfl
    · exact hd
    · simp at hd
  have hframe := hf.setRegionPtr i (b.pointer seg.head)
  refine (h.allocate hfits).replace ?_ ?_ ?_ ?_ ?_ hframe ?_ ?_ ?_ ?_ ?_
  · rfl
  · rfl
  · rfl
  · rfl
  · rfl
  · intro j _ d hd
    exact Or.inl (h.inside j d hd)
  · exact hchain.congr rfl rfl rfl
  · intro d hd
    rcases List.mem_cons.mp hd with rfl | hd
    · exact hstop.le
    · exact Nat.le_add_right_of_le (h.inside i d (hmem d hd))
  · intro j hj d hd k hk
    rcases List.mem_cons.mp hd with rfl | hd
    · rw [hslot]
      exact Or.inr (h.inside j k hk)
    · exact h.apart i j (Ne.symm hj) d (hmem d hd) k hk
  · have hle : chainSlots (b :: rest) ≤ chainSlots (C i) + (3 + 2 ^ order) := by
      rcases hrest with rfl | rfl
      · simp only [chainSlots, hord]
        omega
      · simp only [chainSlots, hord]
        omega
    have hsum := sum_update_le C i (b :: rest) _ hle
    have hslots := h.slots
    simp only
    omega

theorem SegInv.growBlock_framed (h : SegInv tracked stride seg C) (hfull : HeadFull (C i))
    (hord : order = nextOrder (C i))
    (hfits : Fits stride (seg.allocatedEdgeNum + (3 + 2 ^ order)) seg.order)
    (hnum : (chainEdges (C i)).length + 1 < 2 ^ 32)
    (hwidth : width ≤ stride) (htrack : tracked → width = stride) :
    Ensures ((bumped seg order).growBlock (chainPtr seg.head (C i))
        ((nextBlock seg order).pointer seg.head) order width)
      (fun seg' => ∃ b rest,
        Grown seg ((nextBlock seg order).pointer seg.head) (C i) b rest ∧
        SegInv tracked stride (seg'.setRegionPtr i ((nextBlock seg order).pointer seg.head))
          (Function.update C i (b :: rest)) ∧ b.order = order ∧
        Frame tracked stride (bumped seg order).allocatedEdgeNum (nextBlock seg order).slot (nextBlock seg order).stop
          (bumped seg order) seg') Never := by
  have hinv : SegInv tracked stride (bumped seg order) C := h.allocate hfits
  have hfill : ∀ prevNum prevPtr, Frame tracked stride (bumped seg order).allocatedEdgeNum
      (nextBlock seg order).slot (nextBlock seg order).stop (bumped seg order)
      ((bumped seg order).fillBlock ((nextBlock seg order).pointer seg.head) order prevPtr prevNum) :=
    fun prevNum prevPtr => fillBlock_frame (b := nextBlock seg order) hfits (Nat.le_refl _)
  have hlt : (nextBlock seg order).order < 256 := hinv.order_lt (b := nextBlock seg order)
    (Nat.le_refl _)
  have hwords : ∀ prevNum prevPtr, prevNum < 2 ^ 32 → prevPtr < 2 ^ 64 →
      BlockWords ((bumped seg order).fillBlock ((nextBlock seg order).pointer seg.head) order
        prevPtr prevNum) (nextBlock seg order) prevNum prevPtr :=
    fun prevNum prevPtr h1 h2 => fillBlock_words (b := nextBlock seg order) h1 h2 hlt rfl
  have hprops : ∀ s, BlockProps tracked stride s (nextBlock seg order) := by
    intro s _ j hj
    simp [nextBlock] at hj
  have hpos : 0 < 2 ^ order := Nat.two_pow_pos _
  unfold VegitoSegment.growBlock
  by_cases hbig : order ≥ copyThresholdOrder
  · -- the new block is chained in front of the old ones
    rw [if_pos hbig]
    simp only [ensures_ok]
    have hprev : (if chainPtr seg.head (C i) ≠ 0 then
        (bumped seg order).getPrevNumEntries (chainPtr seg.head (C i)) +
          (bumped seg order).getNumEntries (chainPtr seg.head (C i)) else 0)
        = (chainEdges (C i)).length := by
      cases hC : C i with
      | nil => simp [chainPtr, chainEdges]
      | cons b rest =>
        have hch := hinv.chain i
        rw [hC] at hch
        rw [if_pos (by rw [Ne, chainPtr_eq_zero]; simp)]
        simp only [chainPtr, chainEdges, List.length_append]
        have hprevNum := hch.1.getPrevNumEntries
        have hnumEntries := hch.1.getNumEntries
        simp only [bumped] at hprevNum hnumEntries ⊢
        rw [hprevNum, hnumEntries]
    rw [hprev]
    have hf := hfill (chainEdges (C i)).length (chainPtr seg.head (C i))
    have hw := hwords (chainEdges (C i)).length (chainPtr seg.head (C i)) (by omega)
      (h.chainPtr_lt i)
    refine ⟨nextBlock seg order, C i, ⟨rfl, ?_, ?_, Or.inl rfl⟩, ?_, ?_⟩
    · simp [nextBlock]
    · simp [chainEdges, nextBlock]
    · refine h.grow hfits hf rfl rfl (Or.inl rfl) ⟨?_, hprops _, ?_, ?_, h.chain_bumped hfits hf i⟩
      · rw [hf.head]
        exact hw
      · intro d hd
        refine ⟨h.inside i d hd, ?_⟩
        have hlt := (h.chain i).order_lt_nextOrder d hd
        rwa [← hord] at hlt
      · intro hsmall
        simp only [nextBlock] at hsmall
        omega
    · exact ⟨rfl, hf⟩
  · rw [if_neg hbig]
    have hf := hfill 0 0
    have hw := hwords 0 0 (by omega) (by omega)
    generalize (bumped seg order).fillBlock ((nextBlock seg order).pointer seg.head) order 0 0 = s
      at hf hw
    have hhead : s.head = seg.head := hf.head
    have hrestNil : ∀ {s' : VegitoSegment} {nb : Block}, nb.order = order →
        BlockWords s' nb 0 0 → BlockProps tracked stride s' nb →
        ChainOk tracked stride s' [nb] := by
      intro s' nb _ hw' hp'
      exact ⟨hw', hp', by simp, fun _ => rfl, trivial⟩
    cases hC : C i with
    | nil =>
      simp only [chainPtr, ne_eq, not_true_eq_false, if_false, ensures_ok]
      refine ⟨nextBlock seg order, [], ⟨rfl, ?_, ?_, Or.inr rfl⟩, ?_, ?_⟩
      · simp [nextBlock]
      · simp [chainEdges, nextBlock]
      · exact h.grow hfits hf rfl rfl (Or.inr rfl) (hrestNil rfl hw (hprops _))
      · exact ⟨rfl, hf⟩
    | cons b rest =>
      -- a small block is the only one of its chain, and its entries are copied
      have hch := h.chain i
      rw [hC] at hord hfull hch hnum
      simp only [nextOrder] at hord
      simp only [HeadFull] at hfull
      have hrest : rest = [] := hch.2.2.2.1 (by omega)
      subst hrest
      have hdouble : 2 ^ order = 2 * 2 ^ b.order := by rw [hord, Nat.pow_succ, Nat.mul_comm]
      have hbpos : 0 < 2 ^ b.order := Nat.two_pow_pos _
      simp only [chainEdges, List.nil_append] at hnum
      have hsrc : ∀ s', Frame tracked stride (bumped seg order).allocatedEdgeNum
          (nextBlock seg order).slot (nextBlock seg order).stop s s' →
          Readable tracked stride (id s') (b.pointer seg.head) b := by
        intro s' hf'
        have hall := hf.trans hf'
        have hcs := h.chain_bumped hfits hall i
        rw [hC] at hcs
        refine ⟨?_, ⟨_, _, hcs.1⟩, hcs.2.1, (bumped seg order).allocatedEdgeNum, ?_, ?_⟩
        · simp only [id]
          rw [hf'.head, hhead]
        · simp only [id]
          rw [hall.order]
          exact hfits
        · have hin := hinv.inside i b
          rw [hC] at hin
          exact hin List.mem_cons_self
      have hcopy := copyEntries_spec (b := nextBlock seg order) hsrc hw (hprops _)
        (by simp only [nextBlock, List.length_nil]; omega)
        (by simp only [nextBlock, List.length_nil]; omega) hwidth htrack
        (by rw [hf.order]; exact hfits) (Nat.le_refl _)
      have hne : chainPtr seg.head [b] ≠ 0 := by
        rw [Ne, chainPtr_eq_zero]
        simp
      rw [if_pos hne]
      rw [hhead] at hcopy
      refine hcopy.imp ?_
      rintro s' ⟨hf', hw', hp'⟩
      have hall := hf.trans hf'
      refine ⟨(nextBlock seg order).append b.edges, [], ⟨rfl, ?_, ?_, Or.inr rfl⟩, ?_, ?_⟩
      · simp only [nextBlock, Block.append_edges, List.nil_append, Block.append_order]
        omega
      · simp [chainEdges, nextBlock]
      · exact h.grow hfits hall rfl rfl (Or.inr rfl) (hrestNil rfl hw' hp')
      · exact ⟨rfl, hall⟩

theorem SegInv.growBlock (h : SegInv tracked stride seg C) (hfull : HeadFull (C i))
    (hord : order = nextOrder (C i))
    (hfits : Fits stride (seg.allocatedEdgeNum + (3 + 2 ^ order)) seg.order)
    (hnum : (chainEdges (C i)).length + 1 < 2 ^ 32)
    (hwidth : width ≤ stride) (htrack : tracked → width = stride) :
    Ensures ((bumped seg order).growBlock (chainPtr seg.head (C i))
        ((nextBlock seg order).pointer seg.head) order width)
      (fun seg' => ∃ b rest,
        Grown seg ((nextBlock seg order).pointer seg.head) (C i) b rest ∧
        SegInv tracked stride (seg'.setRegionPtr i ((nextBlock seg order).pointer seg.head))
          (Function.update C i (b :: rest)) ∧ SameHeader seg seg') Never :=
  (h.growBlock_framed hfull hord hfits hnum hwidth htrack).imp fun _ hgrown => by
    obtain ⟨b, rest, hb, hinv, -, hf⟩ := hgrown
    exact ⟨b, rest, hb, hinv, hf.order, hf.head, hf.segmentId, hf.tables⟩

end grow

end Gart.Seggraph
