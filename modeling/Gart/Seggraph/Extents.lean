import Gart.Seggraph.BlockHistory
import Gart.Seggraph.Relocate

/-!
# The blocks that a graph reaches

Everything that the label pointers lead to lies in blocks that the manager has handed out and not taken back.
`Extends` says what a stage of `put_edge` adds to them.
-/

namespace Gart.Seggraph
open Gart.ByteMemory Gart.Outcome SegGraph

/-- The blocks of the manager that the label pointers lead to. -/
inductive SegGraph.Reaches (g : SegGraph) : MemBlock → Prop
  | labels (s : Nat) : g.edgeLabelPtrs s ≠ 0 →
      g.Reaches ⟨g.edgeLabelPtrs s, (g.edgeLabelBlocks (g.edgeLabelPtrs s)).order⟩
  | segment (s l : Nat) (d : Dir) : g.locateSegment s l d ≠ 0 →
      g.Reaches ⟨g.locateSegment s l d, (g.segments (g.locateSegment s l d)).order⟩
  | epochs (s l : Nat) (d : Dir) (idx : Nat) : g.locateSegment s l d ≠ 0 → idx < vertexPerSeg →
      (g.segments (g.locateSegment s l d)).epochTables idx ≠ 0 →
      g.Reaches ⟨(g.segments (g.locateSegment s l d)).epochTables idx,
        (g.epochBlocks ((g.segments (g.locateSegment s l d)).epochTables idx)).order⟩

/-! ### Handing out a block -/

def Handed (bm : BlockManager) (pointer order : Nat) (bm' : BlockManager) : Prop :=
  ∀ capacity live, Heap.Inv capacity ⟨bm, live⟩ → Heap.Inv capacity ⟨bm', ⟨pointer, order⟩ :: live⟩

def Kept (bm bm' : BlockManager) (old oldOrder pointer order : Nat) : Prop :=
  (pointer = old ∧ old ≠ 0 ∧ bm' = bm ∧ order = oldOrder) ∨ Handed bm pointer order bm'

theorem handed_alloc {bm : BlockManager} {order : Nat} (hne : (bm.alloc order).1 ≠ 0)
    (hfits : (bm.alloc order).1 + 2 ^ order ≤ bm.capacity) : Handed bm (bm.alloc order).1 order (bm.alloc order).2 := by
  intro capacity live hinv
  have hstep : Heap.step ⟨bm, live⟩ (.alloc order) = ⟨(bm.alloc order).2, ⟨(bm.alloc order).1, order⟩ :: live⟩ := by
    unfold Heap.step
    dsimp only
    rw [if_neg hne]
  rw [← hstep]
  cases hlist : bm.freeBlocks order with
  | nil =>
    by_cases hrefused : Heap.Refused ⟨bm, live⟩ order
    · exact Heap.inv_refused hinv hlist hrefused
    · refine Heap.inv_new hinv hlist hrefused ?_
      have hpointer : (bm.alloc order).1 = bm.usedSize := by
        unfold Heap.Refused at hrefused
        unfold BlockManager.alloc BlockManager.pop
        simp only [hlist, if_true, gt_iff_lt, if_neg hrefused]
      rw [← hinv.capacity_eq]
      rw [hpointer] at hfits
      exact hfits
  | cons pointer rest => exact Heap.inv_pop hinv hlist

theorem allocBlock_handed {g : SegGraph} {order : Nat} {r : Nat × SegGraph} (h : g.allocBlock order = .ok r)
    (hne : r.1 ≠ 0) : Handed g.blockManager r.1 order r.2.blockManager := by
  unfold allocBlock at h
  dsimp only at h
  split at h
  · cases h
  · rename_i hin
    cases h
    have hcapacity : (g.blockManager.alloc order).2.capacity = g.blockManager.capacity := by
      unfold BlockManager.alloc BlockManager.pop
      dsimp only
      cases g.blockManager.freeBlocks order with
      | nil =>
        dsimp only
        split
        · split <;> rfl
        · rfl
      | cons pointer rest =>
        dsimp only
        split
        · split <;> rfl
        · rfl
    refine handed_alloc hne ?_
    rw [← hcapacity]
    exact Nat.not_lt.mp fun hgt => hin ⟨hne, hgt⟩

theorem allocBlock_manager {g : SegGraph} {order : Nat} {r : Nat × SegGraph} (h : g.allocBlock order = .ok r) :
    r.2 = { g with blockManager := r.2.blockManager } := by
  unfold allocBlock at h
  dsimp only at h
  split at h
  · cases h
  · cases h
    rfl

/-! ### A stage -/

/-- A stage takes new blocks from the manager. What is reached then was reached before or is new, and so is what
it puts on the list of segments to recycle. -/
structure Extends (g g' : SegGraph) : Prop where
  result : ∃ new extra, (∀ capacity live, Heap.Inv capacity ⟨g.blockManager, live⟩ →
      Heap.Inv capacity ⟨g'.blockManager, new ++ live⟩) ∧
    (∀ b, g'.Reaches b → g.Reaches b ∨ b ∈ new) ∧
    g'.segmentsToRecycle = g.segmentsToRecycle ++ extra ∧
    ∀ x ∈ extra, g.Reaches ⟨x.1, x.2.1⟩ ∨ (⟨x.1, x.2.1⟩ : MemBlock) ∈ new

theorem Extends.refl (g : SegGraph) : Extends g g :=
  ⟨[], [], fun _ _ h => h, fun _ h => Or.inl h, (List.append_nil _).symm, fun x hx => by cases hx⟩

theorem Extends.trans {g g' g'' : SegGraph} (h : Extends g g') (h' : Extends g' g'') : Extends g g'' := by
  obtain ⟨new, extra, hheap, hreach, hqueue, hextra⟩ := h
  obtain ⟨new', extra', hheap', hreach', hqueue', hextra'⟩ := h'
  have hback : ∀ b, g'.Reaches b ∨ b ∈ new' → g.Reaches b ∨ b ∈ new' ++ new := by
    rintro b (hb | hb)
    · exact (hreach b hb).imp_right fun hmem => List.mem_append_right _ hmem
    · exact Or.inr (List.mem_append_left _ hb)
  refine ⟨new' ++ new, extra ++ extra', fun capacity live hinv => ?_, fun b hb => hback b (hreach' b hb), ?_, ?_⟩
  · rw [List.append_assoc]
    exact hheap' capacity _ (hheap capacity live hinv)
  · rw [hqueue', hqueue, List.append_assoc]
  · intro x hx
    rcases List.mem_append.mp hx with hx | hx
    · exact (hextra x hx).imp_right fun hmem => List.mem_append_right _ hmem
    · exact hback _ (hextra' x hx)

theorem extends_segment {g : SegGraph} {p : Nat} {seg : VegitoSegment} (horder : seg.order = (g.segments p).order)
    (htables : seg.epochTables = (g.segments p).epochTables) : Extends g (g.setSegment p seg) := by
  have hseg : ∀ x, (Function.update g.segments p seg x).order = (g.segments x).order ∧
      (Function.update g.segments p seg x).epochTables = (g.segments x).epochTables := by
    intro x
    by_cases hx : x = p
    · rw [hx, Function.update_self]
      exact ⟨horder, htables⟩
    · rw [Function.update_of_ne hx]
      exact ⟨rfl, rfl⟩
  refine ⟨[], [], fun _ _ h => h, fun b hb => Or.inl ?_, (List.append_nil _).symm, fun x hx => by cases hx⟩
  cases hb with
  | labels s hne => exact .labels s hne
  | segment s l d hne =>
    have hreach := Reaches.segment (g := g) s l d hne
    rw [← (hseg _).1] at hreach
    exact hreach
  | epochs s l d idx hne hidx ht =>
    have htable : (g.segments (g.locateSegment s l d)).epochTables idx =
        (Function.update g.segments p seg (g.locateSegment s l d)).epochTables idx := by rw [(hseg _).2]
    have hreach := Reaches.epochs (g := g) s l d idx hne hidx (by rw [htable]; exact ht)
    rw [htable] at hreach
    exact hreach

/-! ### A new segment -/

/-- The label block of a group of vertices keeps its place and its order, or is a new one. -/
def LabelsKept (g g' : SegGraph) (s : Nat) : Prop :=
  Kept g.blockManager g'.blockManager (g.edgeLabelPtrs s) (g.edgeLabelBlocks (g.edgeLabelPtrs s)).order
    (g'.edgeLabelPtrs s) (g'.edgeLabelBlocks (g'.edgeLabelPtrs s)).order

theorem foldl_append_order (entries : List EdgeLabelEntry) (block : EdgeLabelBlock) :
    (entries.foldl (fun block entry => (block.append entry).getD block) block).order = block.order := by
  induction entries generalizing block with
  | nil => rfl
  | cons entry entries ih =>
    rw [List.foldl_cons, ih]
    unfold EdgeLabelBlock.append
    split <;> rfl

theorem replaceLabelBlock_kept {g g' : SegGraph} {s : Nat} {entries : List EdgeLabelEntry} {entry : EdgeLabelEntry}
    (h : g.replaceLabelBlock s entries entry = .ok g') : LabelsKept g g' s := by
  unfold replaceLabelBlock at h
  obtain ⟨⟨q, g1⟩, halloc, h⟩ := bind_eq_ok h
  dsimp only at h
  split at h
  · cases h
  · rename_i hne
    cases h
    have hhanded := allocBlock_handed halloc hne
    unfold LabelsKept
    simp only [SegGraph.setEdgeLabelBlock, Function.update_self, foldl_append_order]
    exact Or.inr hhanded

theorem updateEdgeLabelBlock_kept {g g' : SegGraph} {s l p : Nat} {d : Dir}
    (h : g.updateEdgeLabelBlock s l d p = .ok g') : LabelsKept g g' s := by
  unfold updateEdgeLabelBlock at h
  dsimp only at h
  split at h
  · exact replaceLabelBlock_kept h
  · rename_i hne
    have hinplace : ∀ block : EdgeLabelBlock, block.order = (g.edgeLabelBlocks (g.edgeLabelPtrs s)).order →
        LabelsKept g (g.setEdgeLabelBlock (g.edgeLabelPtrs s) block) s := by
      intro block horder
      unfold LabelsKept
      simp only [SegGraph.setEdgeLabelBlock, Function.update_self]
      exact Or.inl ⟨rfl, hne, rfl, horder⟩
    split at h
    · cases h
      exact hinplace _ rfl
    · split at h
      · rename_i block happend
        cases h
        refine hinplace _ ?_
        unfold EdgeLabelBlock.append at happend
        split at happend
        · cases happend
        · rw [← Option.some.inj happend]
      · exact replaceLabelBlock_kept h

section relocation
variable {tracked : Nat → Prop} {stride : Nat → Nat} {g : SegGraph} {own : Nat → Option Owner} {log : Log}
  {hole : Nat → Nat → Dir → Prop} {s l p' q : Nat} {d : Dir} {bm1 bm2 : BlockManager}
  {block : EdgeLabelBlock} {extra : List (Nat × Nat × Nat)}

/-- The labels point at a new segment, which has taken over the tables of the old one, if there was one. -/
theorem GraphInv.extends_relocated (h : GraphInv tracked stride g own log hole)
    (hr : Relocation g s l d p' q bm1 bm2 block) {segs : Nat → VegitoSegment}
    (hstay : ∀ x, x ≠ p' → x ≠ g.locateSegment s l d → segs x = g.segments x)
    (hnew : Handed g.blockManager p' (segs p').order bm1)
    (hlabels : Kept bm1 bm2 (g.edgeLabelPtrs s) (g.edgeLabelBlocks (g.edgeLabelPtrs s)).order q block.order)
    (htables : ∀ idx, (segs p').epochTables idx ≠ 0 → g.locateSegment s l d ≠ 0 ∧
      (segs p').epochTables idx = (g.segments (g.locateSegment s l d)).epochTables idx)
    (hextra : ∀ x ∈ extra, g.locateSegment s l d ≠ 0 ∧ x.1 = g.locateSegment s l d ∧
      x.2.1 = (g.segments (g.locateSegment s l d)).order) :
    Extends g { relocated g s p' q (segs p') bm2 block extra with segments := segs } := by
  have hloc : ∀ s' l' d', (relocated g s p' q (segs p') bm2 block extra).locateSegment s' l' d' =
      if s' = s ∧ l' = l ∧ SameList (g.isEdgeUndirected l) d d' then p' else g.locateSegment s' l' d' :=
    h.relocate_locate hr
  -- what is found now is the new segment, or a segment that is not touched
  have hfound : ∀ s' l' d', (relocated g s p' q (segs p') bm2 block extra).locateSegment s' l' d' ≠ 0 →
      (relocated g s p' q (segs p') bm2 block extra).locateSegment s' l' d' = p' ∨
        g.locateSegment s' l' d' ≠ 0 ∧
          (relocated g s p' q (segs p') bm2 block extra).locateSegment s' l' d' = g.locateSegment s' l' d' ∧
          segs (g.locateSegment s' l' d') = g.segments (g.locateSegment s' l' d') := by
    intro s' l' d' hne
    rw [h.relocate_locate hr] at hne ⊢
    by_cases hon : s' = s ∧ l' = l ∧ SameList (g.isEdgeUndirected l) d d'
    · rw [if_pos hon]
      exact Or.inl rfl
    · rw [if_neg hon] at hne ⊢
      by_cases hnew : g.locateSegment s' l' d' = p'
      · exact Or.inl hnew
      · refine Or.inr ⟨hne, rfl, hstay _ hnew fun heq => hon (h.locate_inj ?_ heq)⟩
        rw [← heq]
        exact hne
  obtain ⟨labels, hheap, hblock⟩ : ∃ labels : List MemBlock,
      (∀ capacity live, Heap.Inv capacity ⟨bm1, live⟩ → Heap.Inv capacity ⟨bm2, labels ++ live⟩) ∧
        (g.Reaches ⟨q, block.order⟩ ∨ (⟨q, block.order⟩ : MemBlock) ∈ labels) := by
    rcases hlabels with ⟨rfl, hne, rfl, horder⟩ | hhanded
    · refine ⟨[], fun _ _ hinv => hinv, Or.inl ?_⟩
      rw [horder]
      exact .labels s hne
    · exact ⟨[⟨q, block.order⟩], hhanded, Or.inr (List.mem_singleton_self _)⟩
  refine ⟨labels ++ [⟨p', (segs p').order⟩], extra, fun capacity live hinv => ?_, fun b hb => ?_, rfl, fun x hx => ?_⟩
  · rw [List.append_assoc]
    exact hheap capacity _ (hnew capacity live hinv)
  · cases hb with
    | labels s' hne =>
      change (Function.update g.edgeLabelPtrs s q) s' ≠ 0 at hne
      refine (?_ : ∀ b : MemBlock,
          b = ⟨Function.update g.edgeLabelPtrs s q s', (Function.update g.edgeLabelBlocks q block
        (Function.update g.edgeLabelPtrs s q s')).order⟩ → g.Reaches b ∨ b ∈ _) _ rfl
      rintro b rfl
      by_cases hq : Function.update g.edgeLabelPtrs s q s' = q
      · rw [hq, Function.update_self]
        exact hblock.imp_right fun hmem => List.mem_append_left _ hmem
      · have hs : s' ≠ s := fun heq => hq (heq ▸ Function.update_self ..)
        rw [Function.update_of_ne hs] at hne hq ⊢
        rw [Function.update_of_ne hq]
        exact Or.inl (.labels s' hne)
    | segment s' l' d' hne =>
      change (relocated g s p' q (segs p') bm2 block extra).locateSegment s' l' d' ≠ 0 at hne
      refine (?_ : ∀ b : MemBlock, b = ⟨(relocated g s p' q (segs p') bm2 block extra).locateSegment s' l' d',
        (segs ((relocated g s p' q (segs p') bm2 block extra).locateSegment s' l' d')).order⟩ →
          g.Reaches b ∨ b ∈ _) _ rfl
      rintro b rfl
      rcases hfound s' l' d' hne with hnew | ⟨hne, hsame, hseg⟩
      · rw [hnew]
        exact Or.inr (List.mem_append_right _ (List.mem_singleton_self _))
      · rw [hsame, hseg]
        exact Or.inl (.segment s' l' d' hne)
    | epochs s' l' d' idx hne hidx ht =>
      change (relocated g s p' q (segs p') bm2 block extra).locateSegment s' l' d' ≠ 0 at hne
      change (segs ((relocated g s p' q (segs p') bm2 block extra).locateSegment s' l' d')).epochTables idx ≠ 0 at ht
      refine Or.inl ?_
      change g.Reaches ⟨(segs ((relocated g s p' q (segs p') bm2 block extra).locateSegment s' l' d')).epochTables idx,
        (g.epochBlocks
            ((segs ((relocated g s p' q (segs p') bm2 block extra).locateSegment s' l' d')).epochTables idx)).order⟩
      rcases hfound s' l' d' hne with hnew | ⟨hne, hsame, hseg⟩
      · rw [hnew] at ht ⊢
        obtain ⟨hold, htable⟩ := htables idx ht
        rw [htable] at ht ⊢
        exact .epochs s l d idx hold hidx ht
      · rw [hsame, hseg] at ht ⊢
        exact .epochs s' l' d' idx hne hidx ht
  · obtain ⟨hne, hpointer, horder⟩ := hextra x hx
    rw [hpointer, horder]
    exact Or.inl (.segment s l d hne)

end relocation

end Gart.Seggraph
