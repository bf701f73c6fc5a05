import Gart.Seggraph.GraphInv

/-!
# A new segment takes over a list

The first edge of a list and a merge both end in a new segment that the label
block points at from then on. The lists keep their logs, and the segment that
was replaced is retired.
-/

namespace Gart.Seggraph
open Gart.ByteMemory Gart.Outcome SegGraph

variable {tracked : Nat → Prop} {stride : Nat → Nat} {g : SegGraph} {own : Nat → Option Owner}
  {log : Log} {hole hole' : Nat → Nat → Dir → Prop} {s l : Nat} {d : Dir}

variable {p' q : Nat} {seg' : VegitoSegment} {bm1 bm2 : BlockManager} {block : EdgeLabelBlock}
  {extra : List (Nat × Nat × Nat)}

/-- Owners once the segment at `old`, if there is one, is retired. -/
def retiredOwner (own : Nat → Option Owner) (old : Nat) : Nat → Option Owner :=
  if old = 0 then own else Function.update own old (some .retired)

/-- Owners once a new segment has replaced the one at `old`. -/
def relocatedOwner (own : Nat → Option Owner) (old p' q s l : Nat) (c : Dir) :
    Nat → Option Owner :=
  Function.update (Function.update (retiredOwner own old) p' (some (.segment s l c)))
    q (some (.labels s))

def relocated (g : SegGraph) (s p' q : Nat) (seg' : VegitoSegment) (bm2 : BlockManager)
    (block : EdgeLabelBlock) (extra : List (Nat × Nat × Nat)) : SegGraph :=
  { g with
    blockManager := bm2
    edgeLabelPtrs := Function.update g.edgeLabelPtrs s q
    edgeLabelBlocks := Function.update g.edgeLabelBlocks q block
    segments := Function.update g.segments p' seg'
    segmentsToRecycle := g.segmentsToRecycle ++ extra }

/-- What is known of the two allocations behind a relocation. -/
structure Relocation (g : SegGraph) (s l : Nat) (d : Dir) (p' q : Nat)
    (bm1 bm2 : BlockManager) (block : EdgeLabelBlock) : Prop where
  alloc : BlockManager.Alloc g.blockManager p' bm1
  obtained : Obtained bm1 bm2 (g.edgeLabelPtrs s) q
  entries : ∀ l' d', entriesPointer block.entries l' d' =
    if l' = l ∧ SameList (g.isEdgeUndirected l) d d' then p' else g.locateSegment s l' d'

theorem GraphInv.owned_retire (h : GraphInv tracked stride g own log hole) (s l : Nat) (d : Dir) :
    Owned g.blockManager (retiredOwner own (g.locateSegment s l d)) := by
  unfold retiredOwner
  by_cases h0 : g.locateSegment s l d = 0
  · rw [if_pos h0]
    exact h.owned
  · rw [if_neg h0]
    intro x o hx
    by_cases hxe : x = g.locateSegment s l d
    · rw [hxe]
      exact h.owned _ _ (h.owner s l d h0)
    · rw [Function.update_of_ne hxe] at hx
      exact h.owned x o hx

theorem retire_of_ne {x old : Nat} {o : Owner} (hx : own x = some o) (hne : x ≠ old) :
    retiredOwner own old x = some o := by
  unfold retiredOwner
  by_cases h0 : old = 0
  · rw [if_pos h0]
    exact hx
  · rw [if_neg h0, Function.update_of_ne hne]
    exact hx

theorem GraphInv.labels_ne_segment (h : GraphInv tracked stride g own log hole)
    (hs : g.edgeLabelPtrs s ≠ 0) : g.edgeLabelPtrs s ≠ g.locateSegment s l d := by
  intro heq
  have h1 := h.labels s hs
  have h2 := h.owner s l d (by rw [← heq]; exact hs)
  rw [heq, h2] at h1
  exact absurd (Option.some.inj h1) (by simp)

variable (h : GraphInv tracked stride g own log hole)
  (hr : Relocation g s l d p' q bm1 bm2 block)
include h hr

theorem GraphInv.relocate_label_owner :
    Owned bm2 (relocatedOwner own (g.locateSegment s l d) p' q s l (g.canonDir l d)) ∧
    (Function.update (retiredOwner own (g.locateSegment s l d)) p'
        (some (.segment s l (g.canonDir l d))) q = none ∨
      Function.update (retiredOwner own (g.locateSegment s l d)) p'
        (some (.segment s l (g.canonDir l d))) q = some (.labels s)) := by
  have hretire := h.owned_retire s l d
  have hsegOwned := hretire.alloc hr.alloc (.segment s l (g.canonDir l d))
  have hfresh := hretire.fresh hr.alloc
  have hold : g.edgeLabelPtrs s ≠ 0 →
      Function.update (retiredOwner own (g.locateSegment s l d)) p'
        (some (.segment s l (g.canonDir l d))) (g.edgeLabelPtrs s) = some (.labels s) := by
    intro hs
    exact update_own_of_some (Or.inl hfresh)
      (retire_of_ne (h.labels s hs) (h.labels_ne_segment hs))
  exact ⟨hsegOwned.obtain hr.obtained hold, hsegOwned.obtain_eq hr.obtained hold⟩

theorem GraphInv.relocate_keeps {x : Nat} {o : Owner} (hx : own x = some o)
    (hne : x ≠ g.locateSegment s l d) :
    relocatedOwner own (g.locateSegment s l d) p' q s l (g.canonDir l d) x = some o := by
  have hfresh := (h.owned_retire s l d).fresh hr.alloc
  exact update_own_of_some (h.relocate_label_owner hr).2
    (update_own_of_some (Or.inl hfresh) (retire_of_ne hx hne))

theorem GraphInv.relocate_new :
    relocatedOwner own (g.locateSegment s l d) p' q s l (g.canonDir l d) p' =
      some (.segment s l (g.canonDir l d)) :=
  update_own_of_some (h.relocate_label_owner hr).2 (Function.update_self ..)

theorem GraphInv.relocate_locate (s' l' : Nat) (d' : Dir) :
    (relocated g s p' q seg' bm2 block extra).locateSegment s' l' d' =
      if s' = s ∧ l' = l ∧ SameList (g.isEdgeUndirected l) d d' then p'
      else g.locateSegment s' l' d' := by
  have hq : q ≠ 0 := by
    rcases hr.obtained with ⟨rfl, hne, -⟩ | ha
    · exact hne
    · exact Nat.pos_iff_ne_zero.mp ha.pos
  by_cases hs : s' = s
  · subst hs
    rw [locateSegment_of_block (q := q) (by simp [relocated]) hq]
    simp only [relocated, Function.update_self, hr.entries]
    simp
  · rw [if_neg (fun hh => hs hh.1)]
    have hptr : (relocated g s p' q seg' bm2 block extra).edgeLabelPtrs s' = g.edgeLabelPtrs s' := by
      simp [relocated, hs]
    by_cases h0 : g.edgeLabelPtrs s' = 0
    · rw [locateSegment_of_null h0, locateSegment_of_null (by rw [hptr, h0])]
    · -- the label block of another group of vertices is another block
      have hown := h.labels s' h0
      have hne : g.edgeLabelPtrs s' ≠ g.locateSegment s l d := by
        intro heq
        have h2 := h.owner s l d (by rw [← heq]; exact h0)
        rw [heq, h2] at hown
        exact absurd (Option.some.inj hown) (by simp)
      have hqne : g.edgeLabelPtrs s' ≠ q := by
        rintro rfl
        have hfresh := (h.owned_retire s l d).fresh hr.alloc
        have hkeep := update_own_of_some (o := .segment s l (g.canonDir l d)) (Or.inl hfresh)
          (retire_of_ne hown hne)
        rcases (h.relocate_label_owner hr).2 with hn | hn
        · rw [hn] at hkeep
          exact absurd hkeep (by simp)
        · rw [hn] at hkeep
          simp only [Option.some.injEq, Owner.labels.injEq] at hkeep
          exact hs hkeep.symm
      rw [locateSegment_of_block hptr h0, locateSegment_of_block rfl h0]
      simp only [relocated, Function.update_of_ne hqne]

theorem GraphInv.relocate (hhead : seg'.head = p')
    (hbuffer : p' + 2 ^ seg'.order ≤ g.blockManager.capacity)
    (hextra : (extra = [] ∧ g.locateSegment s l d = 0) ∨
      ∃ o e, extra = [(g.locateSegment s l d, o, e)] ∧ g.locateSegment s l d ≠ 0)
    (hseg : SegHolds (tracked l) (stride l) seg' g.epochBlocks own
      (fun idx => .epochs s l (g.canonDir l d) idx) (fun idx => hole' (vertexOf s idx) l d)
      (fun idx => log (vertexOf s idx) l d))
    (hborn : s * vertexPerSeg < g.vertexId)
    (hholeOff : ∀ v l' d', ¬ OnList g s l d v l' d' → (hole' v l' d' ↔ hole v l' d'))
    (hholeOn : ∀ v d', SameList (g.isEdgeUndirected l) d d' → (hole' v l d' ↔ hole' v l d)) :
    GraphInv tracked stride (relocated g s p' q seg' bm2 block extra)
      (relocatedOwner own (g.locateSegment s l d) p' q s l (g.canonDir l d)) log hole' := by
  have hloc : ∀ s' l' d', (relocated g s p' q seg' bm2 block extra).locateSegment s' l' d' =
      if s' = s ∧ l' = l ∧ SameList (g.isEdgeUndirected l) d d' then p'
      else g.locateSegment s' l' d' := h.relocate_locate hr
  have hkeep : ∀ {x o}, own x = some o → x ≠ g.locateSegment s l d →
      relocatedOwner own (g.locateSegment s l d) p' q s l (g.canonDir l d) x = some o :=
    fun hx hne => h.relocate_keeps hr hx hne
  have hnew := h.relocate_new hr
  have howned := (h.relocate_label_owner hr).1
  have hunowned : own p' = none := h.owned.fresh hr.alloc
  have hcap2 : bm2.capacity = g.blockManager.capacity :=
    hr.obtained.capacity.trans hr.alloc.capacity
  -- a segment that stays where it was
  have hstay : ∀ s' l' d', ¬ (s' = s ∧ l' = l ∧ SameList (g.isEdgeUndirected l) d d') →
      g.locateSegment s' l' d' ≠ 0 → g.locateSegment s' l' d' ≠ g.locateSegment s l d ∧
        g.locateSegment s' l' d' ≠ p' := by
    intro s' l' d' hoff hne
    refine ⟨?_, ?_⟩
    · intro heq
      exact hoff (h.locate_inj (by rw [← heq]; exact hne) heq)
    · intro heq
      have hown := h.owner s' l' d' hne
      rw [heq, hunowned] at hown
      exact absurd hown (by simp)
  have hepoch : ∀ {t : Nat} {s' l' idx : Nat} {c' : Dir}, own t = some (.epochs s' l' c' idx) →
      t ≠ g.locateSegment s l d := by
    rintro t s' l' idx c' ht rfl
    have hown := h.owner s l d (h.owned _ _ ht).1
    rw [hown] at ht
    exact absurd (Option.some.inj ht) (by simp)
  refine ⟨hr.obtained.wellFormed hr.alloc.wellFormed, ?_, howned, ?_, ?_, ?_, ?_, ?_, ?_, ?_,
    h.short, ?_, h.segCount, ?_, ?_⟩
  · simp only [relocated, hcap2]
    exact h.capacity
  · intro s' hs'
    simp only [relocated] at hs' ⊢
    by_cases hs : s' = s
    · subst hs
      rw [Function.update_self]
      exact Function.update_self ..
    · rw [Function.update_of_ne hs] at hs' ⊢
      refine hkeep (h.labels s' hs') ?_
      intro heq
      have h1 := h.labels s' hs'
      have h2 := h.owner s l d (by rw [← heq]; exact hs')
      rw [heq, h2] at h1
      exact absurd (Option.some.inj h1) (by simp)
  · intro s' l' d' hne
    rw [hloc] at hne ⊢
    change _ = some (Owner.segment s' l' (g.canonDir l' d'))
    by_cases hon : s' = s ∧ l' = l ∧ SameList (g.isEdgeUndirected l) d d'
    · rw [if_pos hon]
      obtain ⟨rfl, rfl, hd⟩ := hon
      rw [hnew, (g.canonDir_eq_iff l' d d').mpr hd]
    · rw [if_neg hon] at hne ⊢
      exact hkeep (h.owner s' l' d' hne) (hstay s' l' d' hon hne).1
  · intro s' l' d' hne
    rw [hloc] at hne ⊢
    simp only [relocated]
    by_cases hon : s' = s ∧ l' = l ∧ SameList (g.isEdgeUndirected l) d d'
    · rw [if_pos hon, Function.update_self]
      exact hhead
    · rw [if_neg hon] at hne ⊢
      rw [Function.update_of_ne (hstay s' l' d' hon hne).2]
      exact h.head s' l' d' hne
  · intro s' l' d' hne
    rw [hloc] at hne ⊢
    simp only [relocated, hcap2]
    by_cases hon : s' = s ∧ l' = l ∧ SameList (g.isEdgeUndirected l) d d'
    · rw [if_pos hon, Function.update_self]
      exact hbuffer
    · rw [if_neg hon] at hne ⊢
      rw [Function.update_of_ne (hstay s' l' d' hon hne).2]
      exact h.buffer s' l' d' hne
  · intro s' l' d' hne
    rw [hloc] at hne ⊢
    change SegHolds (tracked l') (stride l') (Function.update g.segments p' seg' _) g.epochBlocks
      (relocatedOwner own (g.locateSegment s l d) p' q s l (g.canonDir l d))
      (fun idx => .epochs s' l' (g.canonDir l' d') idx) (fun idx => hole' (vertexOf s' idx) l' d')
      (fun idx => log (vertexOf s' idx) l' d')
    by_cases hon : s' = s ∧ l' = l ∧ SameList (g.isEdgeUndirected l) d d'
    · rw [if_pos hon, Function.update_self]
      obtain ⟨rfl, rfl, hd⟩ := hon
      rw [← (g.canonDir_eq_iff l' d d').mpr hd]
      refine SegHolds.congr (hseg.mono (fun t idx ht => hkeep ht (hepoch ht)) (fun _ _ _ => rfl))
        (fun idx _ => hholeOn _ d' hd) (fun idx _ => h.log_same hd _)
    · rw [if_neg hon] at hne ⊢
      rw [Function.update_of_ne (hstay s' l' d' hon hne).2]
      refine SegHolds.congr ((h.holds s' l' d' hne).mono (fun t idx ht => hkeep ht (hepoch ht))
        (fun _ _ _ => rfl)) (fun idx hidx => hholeOff _ _ _ ?_) (fun _ _ => rfl)
      rintro ⟨hs, hl, hd⟩
      rw [div_vertexOf hidx] at hs
      exact hon ⟨hs, hl, hd⟩
  · intro s' l' d' h0 idx hidx
    rw [hloc] at h0
    by_cases hon : s' = s ∧ l' = l ∧ SameList (g.isEdgeUndirected l) d d'
    · rw [if_pos hon] at h0
      exact absurd h0 (Nat.pos_iff_ne_zero.mp hr.alloc.pos)
    · rw [if_neg hon] at h0
      exact h.absent s' l' d' h0 idx hidx
  · intro s' l' hu
    change g.isEdgeUndirected l' = true at hu
    refine ⟨?_, (h.both s' l' hu).2⟩
    rw [hloc, hloc, (h.both s' l' hu).1]
    by_cases hl : l' = l
    · subst hl
      simp [SameList, hu]
    · simp [hl]
  · intro s' hs'
    simp only [relocated] at hs' ⊢
    have hne : s' ≠ s := by
      rintro rfl
      omega
    rw [Function.update_of_ne hne]
    exact h.unborn s' hs'
  · intro x hx
    simp only [relocated, List.mem_append] at hx
    rcases hx with hx | hx
    · refine hkeep (h.recycled x hx) ?_
      intro heq
      have h1 := h.recycled x hx
      have h2 := h.owner s l d (by rw [← heq]; exact (h.owned _ _ h1).1)
      rw [heq, h2] at h1
      exact absurd (Option.some.inj h1) (by simp)
    · rcases hextra with ⟨rfl, -⟩ | ⟨o, e, rfl, hne⟩
      · simp at hx
      · rw [List.mem_singleton] at hx
        subst hx
        have hfresh := (h.owned_retire s l d).fresh hr.alloc
        refine update_own_of_some (h.relocate_label_owner hr).2
          (update_own_of_some (Or.inl hfresh) ?_)
        rw [retiredOwner, if_neg hne, Function.update_self]
  · simp only [relocated, List.map_append]
    rcases hextra with ⟨rfl, -⟩ | ⟨o, e, rfl, hne⟩
    · simpa using h.recycledOnce
    · rw [List.nodup_append]
      refine ⟨h.recycledOnce, by simp, ?_⟩
      rintro a ha b hb rfl
      simp only [List.map_cons, List.map_nil, List.mem_singleton] at hb
      obtain ⟨x, hx, rfl⟩ := List.mem_map.mp ha
      have h1 := h.recycled x hx
      have h2 := h.owner s l d hne
      rw [hb, h2] at h1
      exact absurd (Option.some.inj h1) (by simp)

end Gart.Seggraph
