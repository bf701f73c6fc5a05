import Gart.Seggraph.PutEdge

/-!
# The segments of other lists

A call of `put_edge` works on the segment of its list, or puts a new one in its place. The segments of other groups of
vertices, labels and directions stay where they are and as they are.
-/

namespace Gart.Seggraph
open Gart.ByteMemory Gart.Outcome SegGraph

/-- A step that changes one segment, blocks of epochs and the allocator. -/
structure OnlySegment (p : Nat) (g g' : SegGraph) : Prop where
  undirected : g'.edgeIsUndirected = g.edgeIsUndirected
  labelPtrs : g'.edgeLabelPtrs = g.edgeLabelPtrs
  labelBlocks : g'.edgeLabelBlocks = g.edgeLabelBlocks
  segments : ∀ x, x ≠ p → g'.segments x = g.segments x

/-- The segments of all other lists are untouched. -/
structure Elsewhere (s l : Nat) (d : Dir) (g g' : SegGraph) : Prop where
  undirected : g'.edgeIsUndirected = g.edgeIsUndirected
  locate : ∀ s' l' d', ¬ (s' = s ∧ l' = l ∧ SameList (g.isEdgeUndirected l) d d') →
    g'.locateSegment s' l' d' = g.locateSegment s' l' d'
  segment : ∀ s' l' d', ¬ (s' = s ∧ l' = l ∧ SameList (g.isEdgeUndirected l) d d') → g.locateSegment s' l' d' ≠ 0 →
    g'.segments (g.locateSegment s' l' d') = g.segments (g.locateSegment s' l' d')

section steps
variable {tracked : Nat → Prop} {stride : Nat → Nat} {g g' g'' : SegGraph} {own : Nat → Option Owner} {log : Log}
  {hole : Nat → Nat → Dir → Prop} {p s l idx w width : Nat} {d : Dir}

theorem OnlySegment.refl (p : Nat) (g : SegGraph) : OnlySegment p g g := ⟨rfl, rfl, rfl, fun _ _ => rfl⟩

theorem OnlySegment.trans (h : OnlySegment p g g') (h' : OnlySegment p g' g'') : OnlySegment p g g'' :=
  ⟨h'.undirected.trans h.undirected, h'.labelPtrs.trans h.labelPtrs, h'.labelBlocks.trans h.labelBlocks,
    fun x hx => (h'.segments x hx).trans (h.segments x hx)⟩

theorem onlySegment_set (g : SegGraph) (p : Nat) (seg : VegitoSegment) : OnlySegment p g (g.setSegment p seg) :=
  ⟨rfl, rfl, rfl, fun _ hx => Function.update_of_ne hx _ _⟩

theorem onlySegment_alloc {order : Nat} {r : Nat × SegGraph} (h : g.allocBlock order = .ok r) :
    OnlySegment p g r.2 := by
  rw [allocBlock_manager h]
  exact ⟨rfl, rfl, rfl, fun _ _ => rfl⟩

theorem onlySegment_epochBlock (g : SegGraph) (p t : Nat) (block : EpochBlock) :
    OnlySegment p g (g.setEpochBlock t block) :=
  ⟨rfl, rfl, rfl, fun _ _ => rfl⟩

theorem OnlySegment.locate (h : OnlySegment p g g') (s' l' : Nat) (d' : Dir) :
    g'.locateSegment s' l' d' = g.locateSegment s' l' d' := by
  unfold SegGraph.locateSegment
  rw [h.labelPtrs, h.labelBlocks]

theorem Elsewhere.refl (s l : Nat) (d : Dir) (g : SegGraph) : Elsewhere s l d g g :=
  ⟨rfl, fun _ _ _ _ => rfl, fun _ _ _ _ _ => rfl⟩

theorem Elsewhere.trans (h : Elsewhere s l d g g') (h' : Elsewhere s l d g' g'') : Elsewhere s l d g g'' := by
  have hund : g'.isEdgeUndirected l = g.isEdgeUndirected l := by
    unfold SegGraph.isEdgeUndirected
    rw [h.undirected]
  refine ⟨h'.undirected.trans h.undirected, fun s' l' d' hother => ?_, fun s' l' d' hother hne => ?_⟩
  · rw [← h.locate s' l' d' hother]
    rw [← hund] at hother
    exact h'.locate s' l' d' hother
  · have hlocate := h.locate s' l' d' hother
    have hsegment := h.segment s' l' d' hother hne
    rw [← hund] at hother
    rw [← hlocate] at hne ⊢
    rw [← hlocate] at hsegment
    exact (h'.segment s' l' d' hother hne).trans hsegment

theorem OnlySegment.elsewhere (h : OnlySegment p g g') (hinv : GraphInv tracked stride g own log hole)
    (hp : g.locateSegment s l d = p) (hp0 : p ≠ 0) :
    Elsewhere s l d g g' := by
  refine ⟨h.undirected, fun s' l' d' _ => h.locate s' l' d', fun s' l' d' hother _ => h.segments _ fun heq => ?_⟩
  exact hother (hinv.locate_inj (by rw [hp]; exact hp0) (heq.trans hp.symm))

theorem GraphInv.elsewhere_relocated {p' q : Nat} {bm1 bm2 : BlockManager} {block : EdgeLabelBlock}
    {seg' : VegitoSegment} {extra : List (Nat × Nat × Nat)} (h : GraphInv tracked stride g own log hole)
    (hr : Relocation g s l d p' q bm1 bm2 block) (hundirected : g'.edgeIsUndirected = g.edgeIsUndirected)
    (hlocate : ∀ s' l' d', g'.locateSegment s' l' d' =
      (relocated g s p' q seg' bm2 block extra).locateSegment s' l' d')
    (hsegments : ∀ x, x ≠ p' → (g.locateSegment s l d ≠ 0 → x ≠ g.locateSegment s l d) → g'.segments x = g.segments x) :
    Elsewhere s l d g g' := by
  refine ⟨hundirected, fun s' l' d' hother => ?_, fun s' l' d' hother hne => hsegments _ ?_ fun hold heq => ?_⟩
  · rw [hlocate, h.relocate_locate hr, if_neg hother]
  · intro heq
    have hown := h.owner s' l' d' hne
    rw [heq, h.owned.fresh hr.alloc] at hown
    cases hown
  · exact hother (h.locate_inj hold heq)

theorem initSegment_elsewhere {r : Nat × SegGraph} (h : GraphInv tracked stride g own log NoHole)
    (hok : g.initSegment s l d = .ok r) : Elsewhere s l d g r.2 := by
  unfold initSegment at hok
  dsimp only at hok
  split at hok
  · cases hok
    exact .refl s l d g
  · rename_i h0
    obtain ⟨⟨p', g1⟩, halloc, hok⟩ := bind_eq_ok hok
    obtain ⟨bm1, hg1, halloc⟩ := (allocBlock_spec h.bm initSegmentOrder).of_ok halloc
    subst hg1
    dsimp only at halloc hok
    split at hok
    · cases hok
    · rename_i hp'
      obtain ⟨ha, -⟩ := halloc.resolve_left hp'
      obtain ⟨g3, hlabels, hok⟩ := bind_eq_ok hok
      obtain ⟨q, bm2, block, rfl, hob, hentries⟩ := (updateEdgeLabelBlock_spec ha.wellFormed s l d p').of_ok hlabels
      cases hok
      exact h.elsewhere_relocated ⟨ha, hob, hentries⟩ rfl (fun s' l' d' =>
        show _ = (relocated g s p' q (g.segments p') bm2 block []).locateSegment s' l' d' from rfl)
        fun x hx _ => Function.update_of_ne hx _ _

theorem mergeIntoNewSegment_elsewhere {r : Nat × Nat × SegGraph} {seg : VegitoSegment}
    (h : GraphInv tracked stride g own log NoHole) (hp : g.locateSegment s l d = p) (hp0 : p ≠ 0)
    (hok : (g.setSegment p seg).mergeIntoNewSegment w s l d idx p width = .ok r) : Elsewhere s l d g r.2.2 := by
  unfold mergeIntoNewSegment at hok
  dsimp only at hok
  obtain ⟨⟨p', g1⟩, halloc, hok⟩ := bind_eq_ok hok
  have hbm : (g.setSegment p seg).blockManager.WellFormed := h.bm
  obtain ⟨bm1, hg1, halloc⟩ := (allocBlock_spec hbm _).of_ok halloc
  subst hg1
  dsimp only at halloc hok
  split at hok
  · cases hok
  · rename_i hp'
    obtain ⟨ha, -⟩ := halloc.resolve_left hp'
    obtain ⟨⟨new, edgeBlock⟩, -, hok⟩ := bind_eq_ok hok
    obtain ⟨g3, hlabels, hok⟩ := bind_eq_ok hok
    dsimp only at hlabels hok
    obtain ⟨q, bm2, block, rfl, hob, hentries⟩ := (updateEdgeLabelBlock_spec ha.wellFormed s l d p').of_ok hlabels
    cases hok
    refine h.elsewhere_relocated ⟨ha, hob, hentries⟩ rfl (fun s' l' d' =>
        show _ = (relocated g s p' q (g.segments p') bm2 block []).locateSegment s' l' d' from rfl)
      fun x hx hold => ?_
    have hxp : x ≠ p := hp ▸ hold (by rw [hp]; exact hp0)
    exact (Function.update_of_ne hx _ _).trans (Function.update_of_ne hxp _ _)

theorem roomForEdge_elsewhere {r : Nat × Nat × SegGraph} (h : GraphInv tracked stride g own log NoHole)
    (hp : g.locateSegment s l d = p) (hp0 : p ≠ 0) (hok : g.roomForEdge w s l d idx p width = .ok r) :
    Elsewhere s l d g r.2.2 := by
  unfold roomForEdge at hok
  dsimp only at hok
  split at hok
  · cases hok
    exact .refl s l d g
  · generalize (if (g.segments p).regionPtrs idx ≠ 0 then
      (g.segments p).getOrder ((g.segments p).regionPtrs idx) + 1 else defaultInitOrder) = order at hok
    split at hok
    · exact mergeIntoNewSegment_elsewhere h hp hp0 hok
    · obtain ⟨seg, -, hok⟩ := bind_eq_ok hok
      cases hok
      exact ((onlySegment_set _ _ _).trans (onlySegment_set _ _ _)).elsewhere h hp hp0

theorem initEpochTable_only {r : Nat × SegGraph} (hok : g.initEpochTable w p idx = .ok r) : OnlySegment p g r.2 := by
  unfold initEpochTable at hok
  dsimp only at hok
  split at hok
  · cases hok
    exact .refl p g
  · obtain ⟨⟨t, g1⟩, halloc, hok⟩ := bind_eq_ok hok
    dsimp only at hok
    split at hok
    · cases hok
    · cases hok
      exact (onlySegment_alloc halloc).trans ((onlySegment_epochBlock _ p _ _).trans (onlySegment_set _ _ _))

theorem openEpoch_only {edgeBlock table : Nat} (hok : g.openEpoch w p idx edgeBlock table = .ok g') :
    OnlySegment p g g' := by
  unfold openEpoch at hok
  split at hok
  · obtain ⟨⟨t, g1⟩, hroom, hok⟩ := bind_eq_ok hok
    cases hok
    refine OnlySegment.trans ?_ (onlySegment_epochBlock _ p _ _)
    unfold roomForEpoch at hroom
    dsimp only at hroom
    split at hroom
    · cases hroom
      exact .refl p g
    · obtain ⟨⟨t', g2⟩, halloc, hroom⟩ := bind_eq_ok hroom
      dsimp only at hroom
      split at hroom
      · cases hroom
      · cases hroom
        exact (onlySegment_alloc halloc).trans ((onlySegment_epochBlock _ p _ _).trans (onlySegment_set _ _ _))
  · cases hok
    exact .refl p g

theorem putEdge_elsewhere {src label dst : Nat} {dir : Dir} {data : Bytes}
    (h : GraphInv tracked stride g own log NoHole) (hsrc : src < g.vertexId)
    (hexact : stride label ≤ 16382 ∨ data.length = stride label) (hwidth : data.length ≤ stride label)
    (htrack : tracked label → data.length = stride label)
    (hgap : g.locateSegment (src / vertexPerSeg) label dir ≠ 0 →
      NoGap (stride label) data.length
        (g.segments (g.locateSegment (src / vertexPerSeg) label dir)) (src % vertexPerSeg))
    (hshort : (log src label dir).length + 1 < 2 ^ 32) (hput : g.putEdge w src label dir dst data = .ok g') :
    Elsewhere (src / vertexPerSeg) label dir g g' := by
  have hidx : src % vertexPerSeg < vertexPerSeg := Nat.mod_lt _ (by decide)
  have hborn : src / vertexPerSeg * vertexPerSeg < g.vertexId :=
    Nat.lt_of_le_of_lt (Nat.div_mul_le_self src vertexPerSeg) hsrc
  unfold putEdge at hput
  rw [if_neg (Nat.not_le.mpr hsrc)] at hput
  obtain ⟨⟨p1, g1⟩, hinit, hput⟩ := bind_eq_ok hput
  obtain ⟨⟨own1, h1⟩, hs1, hp1, hne1, hgap1, -⟩ := (initSegment_spec h hborn hexact hgap).of_ok hinit
  obtain ⟨⟨p2, edgeBlock, g2⟩, hroom, hput⟩ := bind_eq_ok hput
  dsimp only at h1 hs1 hp1 hne1 hgap1 hroom hput
  have hborn1 : src / vertexPerSeg * vertexPerSeg < g1.vertexId := by
    rw [hs1.vertexId]
    exact hborn
  obtain ⟨⟨own2, h2⟩, -, hp2, hne2, -, -⟩ := (roomForEdge_spec h1 hp1 hne1 hidx hborn1 hexact hwidth htrack hgap1
    (by rw [vertexOf_div_mod]; exact hshort)).of_ok hroom
  obtain ⟨⟨table, g3⟩, htable, hput⟩ := bind_eq_ok hput
  obtain ⟨g4, hopen, hput⟩ := bind_eq_ok hput
  obtain ⟨seg, -, hput⟩ := bind_eq_ok hput
  cases hput
  have hlast : OnlySegment p2 g2 (g4.setSegment p2 seg) :=
    (initEpochTable_only htable).trans ((openEpoch_only hopen).trans (onlySegment_set _ _ _))
  exact (initSegment_elsewhere h hinit).trans ((roomForEdge_elsewhere h1 hp1 hne1 hroom).trans
    (hlast.elsewhere h2 hp2 hne2))

end steps

end Gart.Seggraph
