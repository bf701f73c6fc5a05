import Gart.Seggraph.PutEdge

/-!
# Chains that a reader has found

A reader keeps the pointer to an edge block while the writer goes on. The blocks behind it are never written again,
and the block itself only while it is the newest of its list. That holds too when the list has moved on to a larger
block, because the writer only writes to new slots and to the newest blocks.
-/

namespace Gart.Seggraph
open Gart.ByteMemory Gart.Outcome

variable {stride : Nat} {seg seg' : VegitoSegment} {C C' : Nat → List Block} {idx i : Nat}

/-! ### What the bytes say -/

theorem BlockWords.unique {b b' : Block} {prevNum prevPtr prevNum' prevPtr' : Nat}
    (h : BlockWords seg b prevNum prevPtr) (h' : BlockWords seg b' prevNum' prevPtr')
    (hp : BlockProps True stride seg b)
    (hp' : BlockProps True stride seg b') (hslot : b.slot = b'.slot) : b = b' ∧ prevPtr = prevPtr' := by
  obtain ⟨slot, order, edges⟩ := b
  obtain ⟨slot', order', edges'⟩ := b'
  dsimp only at hslot
  subst hslot
  have horder : order = order' := h.order.symm.trans h'.order
  subst horder
  have hlen : edges.length = edges'.length := h.num.symm.trans h'.num
  have hedges : edges = edges' := by
    refine List.ext_getElem hlen fun j hj hj' => ?_
    have hdst : edges[j].dst = edges'[j].dst := (h.entry j hj).symm.trans (h'.entry j hj')
    have hdata : edges[j].data = edges'[j].data := (hp trivial j hj).symm.trans (hp' trivial j hj')
    cases hedge : edges[j] with
    | mk dst data =>
      cases hedge' : edges'[j] with
      | mk dst' data' =>
        rw [hedge, hedge'] at hdst hdata
        exact congrArg₂ Edge.mk hdst hdata
  subst hedges
  exact ⟨rfl, h.prevPtr.symm.trans h'.prevPtr⟩

theorem ChainOk.unique {c c' : List Block} (h : ChainOk True stride seg c) (h' : ChainOk True stride seg c')
    (hptr : chainPtr seg.head c = chainPtr seg.head c') : c = c' := by
  induction c generalizing c' with
  | nil => exact (chainPtr_eq_zero.mp hptr.symm).symm
  | cons b rest ih =>
    cases c' with
    | nil => exact chainPtr_eq_zero.mp hptr
    | cons b' rest' =>
      have hslot : b.slot = b'.slot := by
        simp only [chainPtr, Block.pointer] at hptr
        omega
      obtain ⟨rfl, hprev⟩ := h.1.unique h'.1 h.2.1 h'.2.1 hslot
      rw [ih h.2.2.2.2 h'.2.2.2.2 hprev]

theorem SegInv.unique (h : SegInv True stride seg C) (h' : SegInv True stride seg C') : C = C' :=
  funext fun i => (h.chain i).unique (h'.chain i) ((h.region i).symm.trans (h'.region i))

/-! ### The chain in the middle of the writer's steps -/

/-- No newest block of the segment shares slots with the chain, unless the chain is the list `idx` itself. -/
def NewestApart (C : Nat → List Block) (idx : Nat) (c : List Block) : Prop :=
  ∀ i n older, C i = n :: older → (i = idx ∧ c = n :: older) ∨ ∀ b ∈ c, b.stop ≤ n.slot ∨ n.stop ≤ b.slot

/-- A chain that the list `idx` has or had. -/
structure HeldChain (stride : Nat) (seg : VegitoSegment) (C : Nat → List Block) (idx : Nat) (c : List Block) :
    Prop where
  chain : ChainOk True stride seg c
  inside : ∀ b ∈ c, b.stop ≤ seg.allocatedEdgeNum
  beside : NewestApart C idx c

theorem SegInv.held (h : SegInv True stride seg C) (idx : Nat) : HeldChain stride seg C idx (C idx) where
  chain := h.chain idx
  inside := h.inside idx
  beside i n older hC := by
    by_cases hi : i = idx
    · subst hi
      exact Or.inl ⟨rfl, hC⟩
    · refine Or.inr fun b hb => h.apart idx i (Ne.symm hi) b hb n ?_
      rw [hC]
      exact List.mem_cons_self

/-- A new block takes the list `i` over. -/
structure NewBlock (stride : Nat) (seg : VegitoSegment) (C : Nat → List Block) (i order : Nat) (b : Block)
    (rest : List Block) (s seg' : VegitoSegment) (C' : Nat → List Block) : Prop where
  slot : b.slot = seg.allocatedEdgeNum
  frame : Frame True stride (bumped seg order).allocatedEdgeNum (nextBlock seg order).slot (nextBlock seg order).stop
    (bumped seg order) s
  result : seg' = s.setRegionPtr i (b.pointer seg.head)
  fits : Fits stride (bumped seg order).allocatedEdgeNum seg.order
  edges : chainEdges (b :: rest) = chainEdges (C i)
  full : ∀ n older, C i = n :: older → n.edges ≠ []
  chains : C' = Function.update C i (b :: rest)

/-- The end of the newest block of the list `i` changes, behind the edges `pre`. -/
structure EndWritten (stride : Nat) (seg : VegitoSegment) (C : Nat → List Block) (i slot order : Nat)
    (pre old new : List Edge) (rest : List Block) (seg' : VegitoSegment) (C' : Nat → List Block) : Prop where
  before : C i = ⟨slot, order, pre ++ old⟩ :: rest
  frame : Frame True stride seg.allocatedEdgeNum slot (slot + (3 + 2 ^ order)) seg seg'
  grows : old.length ≤ new.length
  chains : C' = Function.update C i (⟨slot, order, pre ++ new⟩ :: rest)

/-- What one step of the writer does to the list `i` of a segment. The first `settled` edges do not change. -/
inductive ListStep (stride : Nat) (seg : VegitoSegment) (C : Nat → List Block) (i settled : Nat)
    (seg' : VegitoSegment) (C' : Nat → List Block) : Prop
  | grown (order : Nat) (b : Block) (rest : List Block) (s : VegitoSegment) :
      NewBlock stride seg C i order b rest s seg' C' → ListStep stride seg C i settled seg' C'
  | written (slot order : Nat) (pre old new : List Edge) (rest : List Block) :
      EndWritten stride seg C i slot order pre old new rest seg' C' →
      settled ≤ (chainEdges rest).length + pre.length → ListStep stride seg C i settled seg' C'

theorem ListStep.length_le {settled : Nat} (h : ListStep stride seg C i settled seg' C') (j : Nat) :
    (chainEdges (C j)).length ≤ (chainEdges (C' j)).length := by
  cases h with
  | grown order b rest s h =>
    rw [h.chains]
    by_cases hj : j = i
    · rw [hj, Function.update_self, h.edges]
    · rw [Function.update_of_ne hj]
  | written slot order pre old new rest h =>
    rw [h.chains]
    by_cases hj : j = i
    · have hgrows := h.grows
      rw [hj, Function.update_self, h.before]
      simp only [chainEdges, List.length_append]
      omega
    · rw [Function.update_of_ne hj]

theorem ListStep.header {settled : Nat} (h : ListStep stride seg C i settled seg' C') :
    seg'.order = seg.order ∧ seg'.head = seg.head ∧ seg'.epochTables = seg.epochTables := by
  cases h with
  | grown order b rest s h =>
    rw [h.result]
    exact ⟨h.frame.order, h.frame.head, h.frame.tables⟩
  | written slot order pre old new rest h => exact ⟨h.frame.order, h.frame.head, h.frame.tables⟩

section held
variable {settled slot order : Nat} {pre old new edges snap : List Edge} {rest c : List Block}

theorem HeldChain.newBlock {b : Block} {s : VegitoSegment} (h : HeldChain stride seg C idx c)
    (hnew : NewBlock stride seg C i order b rest s seg' C') : HeldChain stride seg' C' idx c := by
  have halloc : ∀ x ∈ c, x.stop ≤ (bumped seg order).allocatedEdgeNum := fun x hx =>
    Nat.le_add_right_of_le (h.inside x hx)
  have hbumped : ChainOk True stride (bumped seg order) c := h.chain.congr rfl rfl rfl
  have hframed := hbumped.of_frame hnew.frame (fun x hx => Or.inl (h.inside x hx)) halloc hnew.fits
  refine ⟨?_, fun x hx => ?_, fun j n older hn => ?_⟩
  · rw [hnew.result]
    exact hframed.congr rfl rfl rfl
  · rw [hnew.result]
    exact (halloc x hx).trans (Nat.le_of_eq hnew.frame.allocated.symm)
  · rw [hnew.chains] at hn
    by_cases hj : j = i
    · rw [hj, Function.update_self] at hn
      refine Or.inr fun x hx => Or.inl ?_
      rw [← (List.cons.inj hn).1, hnew.slot]
      exact h.inside x hx
    · rw [Function.update_of_ne hj] at hn
      exact h.beside j n older hn

theorem HeldChain.written_beside (h : HeldChain stride seg C idx c) (hfits : Fits stride seg.allocatedEdgeNum seg.order)
    (hwritten : EndWritten stride seg C i slot order pre old new rest seg' C')
    (hout : ∀ b ∈ c, b.stop ≤ slot ∨ slot + (3 + 2 ^ order) ≤ b.slot) : HeldChain stride seg' C' idx c := by
  refine ⟨h.chain.of_frame hwritten.frame hout h.inside hfits, fun x hx => ?_, fun j n older hn => ?_⟩
  · rw [hwritten.frame.allocated]
    exact h.inside x hx
  · rw [hwritten.chains] at hn
    by_cases hj : j = i
    · rw [hj, Function.update_self] at hn
      rw [← (List.cons.inj hn).1]
      exact Or.inr hout
    · rw [Function.update_of_ne hj] at hn
      exact h.beside j n older hn

/-- A step of the writer keeps a chain that was found, and the edges that were settled when it was found. The block
that was found may get more edges while it is the newest one, and it stays the newest one until it has some. -/
theorem HeldChain.step (h : HeldChain stride seg C idx (⟨slot, order, edges⟩ :: rest))
    (hinv : SegInv True stride seg C) (hinv' : SegInv True stride seg' C')
    (hstep : ListStep stride seg C i settled seg' C') (hsnap : snap <+: chainEdges rest ++ edges)
    (hsettled : i = idx → snap.length ≤ settled) :
    ∃ edges', HeldChain stride seg' C' idx (⟨slot, order, edges'⟩ :: rest) ∧ snap <+: chainEdges rest ++ edges' ∧
      edges.length ≤ edges'.length ∧ (edges' = edges ∨ C' idx = ⟨slot, order, edges'⟩ :: rest) ∧
      (edges = [] → C idx = ⟨slot, order, edges⟩ :: rest → C' idx = ⟨slot, order, edges'⟩ :: rest) := by
  cases hstep with
  | grown order' b rest' s hnew =>
    refine ⟨edges, h.newBlock hnew, hsnap, Nat.le_refl _, Or.inl rfl, fun hnil hC => ?_⟩
    rw [hnew.chains]
    by_cases hidx : idx = i
    · subst hidx
      exact absurd hnil (hnew.full _ _ hC)
    · rw [Function.update_of_ne hidx]
      exact hC
  | written slot' order' pre old new rest' hwritten henough =>
    rcases h.beside i _ _ hwritten.before with ⟨rfl, hC⟩ | hout
    · -- the chain is the list that is written to
      simp only [List.cons.injEq, Block.mk.injEq] at hC
      obtain ⟨⟨rfl, rfl, rfl⟩, rfl⟩ := hC
      have hC' : C' i = ⟨slot, order, pre ++ new⟩ :: rest := by
        rw [hwritten.chains, Function.update_self]
      have hheld := hinv'.held i
      rw [hC'] at hheld
      have hgrows := hwritten.grows
      refine ⟨pre ++ new, hheld, ?_, by simpa using hgrows, Or.inr hC', fun _ _ => hC'⟩
      have hle := (hsettled rfl).trans henough
      rw [← List.append_assoc] at hsnap ⊢
      have hpre : snap <+: chainEdges rest ++ pre :=
        List.prefix_of_prefix_length_le hsnap (List.prefix_append _ _) (by simpa using hle)
      exact hpre.trans (List.prefix_append _ _)
    · refine ⟨edges, h.written_beside hinv.fits hwritten hout, hsnap, Nat.le_refl _, Or.inl rfl, fun _ hC => ?_⟩
      rw [hwritten.chains]
      by_cases hidx : idx = i
      · subst hidx
        rw [hwritten.before, List.cons.injEq] at hC
        have hself := hout _ List.mem_cons_self
        rw [← hC.1] at hself
        have hpos := Nat.two_pow_pos order'
        unfold Block.stop at hself
        dsimp only at hself
        omega
      · rw [Function.update_of_ne hidx]
        exact hC

end held

end Gart.Seggraph
