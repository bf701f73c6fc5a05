import Gart.Seggraph.PutEdge
import Gart.Seggraph.Stages

/-!
# The other calls of a run

A new graph satisfies the invariant, and new vertices and the recycling of
replaced segments keep it.
-/

namespace Gart.Seggraph
open Gart.ByteMemory Gart.Outcome SegGraph

variable {tracked : Nat → Prop} {stride : Nat → Nat} {g : SegGraph} {own : Nat → Option Owner}
  {log : Log} {hole : Nat → Nat → Dir → Prop}

def emptyLog : Log := fun _ _ _ => []

theorem create_locate (capacity : Nat) (undirected : List Bool) (s l : Nat) (d : Dir) :
    (create capacity undirected).locateSegment s l d = 0 :=
  locateSegment_of_null rfl l d

theorem create_inv (capacity : Nat) (undirected : List Bool) (hcap : capacity ≤ 2 ^ 64) :
    GraphInv tracked stride (create capacity undirected) (fun _ => none) emptyLog NoHole where
  bm := by
    simp only [create]
    exact BlockManager.create_wellFormed capacity
  capacity := by
    simp only [create, BlockManager.create_eq]
    exact hcap
  owned p o ho := by simp at ho
  labels s hs := absurd rfl hs
  owner s l d hne := absurd (create_locate capacity undirected s l d) hne
  head s l d hne := absurd (create_locate capacity undirected s l d) hne
  buffer s l d hne := absurd (create_locate capacity undirected s l d) hne
  holds s l d hne := absurd (create_locate capacity undirected s l d) hne
  absent _ _ _ _ _ _ := rfl
  both s l _ := ⟨by rw [create_locate, create_locate], fun _ => rfl⟩
  short _ _ _ := by simp [emptyLog]
  unborn _ _ := rfl
  segCount := by simp [create, vertexPerSeg]
  recycled x hx := by simp [create] at hx
  recycledOnce := by simp [create]

/-! ### new_vertex -/

theorem newVertex_edgeLabelPtrs (h : GraphInv tracked stride g own log hole) :
    g.newVertex.edgeLabelPtrs = g.edgeLabelPtrs := by
  unfold newVertex
  dsimp only
  split
  · have hseg := h.segCount.1
    have hsucc : (g.segId + 1) * vertexPerSeg = g.segId * vertexPerSeg + vertexPerSeg :=
      Nat.succ_mul _ _
    have hnull := h.unborn (g.segId + 1) (by omega)
    dsimp only
    rw [← hnull, Function.update_eq_self]
  · rfl

theorem newVertex_eq (h : GraphInv tracked stride g own log hole) :
    ∃ segId, g.newVertex = { g with vertexId := g.vertexId + 1, segId := segId } ∧
      g.vertexId + 1 ≤ segId * vertexPerSeg ∧ segId * vertexPerSeg < g.vertexId + 1 + vertexPerSeg := by
  have hptrs := newVertex_edgeLabelPtrs h
  obtain ⟨hlo, hhi⟩ := h.segCount
  have hpos : 0 < vertexPerSeg := by decide
  have hsucc : (g.segId + 1) * vertexPerSeg = g.segId * vertexPerSeg + vertexPerSeg :=
    Nat.succ_mul _ _
  have hiff := Nat.le_div_iff_mul_le hpos (x := g.segId) (y := g.vertexId)
  unfold newVertex at hptrs ⊢
  dsimp only at hptrs ⊢
  by_cases hge : g.vertexId / vertexPerSeg ≥ g.segId
  · rw [if_pos hge] at hptrs ⊢
    have hle := hiff.mp hge
    refine ⟨g.segId + 1, ?_, by omega, by omega⟩
    dsimp only at hptrs
    rw [hptrs]
  · rw [if_neg hge]
    have hlt : ¬ g.segId * vertexPerSeg ≤ g.vertexId := fun hle => hge (hiff.mpr hle)
    exact ⟨g.segId, rfl, by omega, by omega⟩

theorem newVertex_inv (h : GraphInv tracked stride g own log hole) :
    GraphInv tracked stride g.newVertex own log hole := by
  obtain ⟨segId, heq, hlo, hhi⟩ := newVertex_eq h
  rw [heq]
  exact ⟨h.bm, h.capacity, h.owned, h.labels, h.owner, h.head, h.buffer, h.holds, h.absent, h.both, h.short,
    fun s hs => h.unborn s (by simp only at hs; omega), ⟨hlo, hhi⟩, h.recycled, h.recycledOnce⟩

theorem newVertex_vertexId (g : SegGraph) : g.newVertex.vertexId = g.vertexId + 1 := by
  unfold newVertex
  dsimp only
  split <;> rfl

theorem newVertex_isEdgeUndirected (g : SegGraph) (l : Nat) :
    g.newVertex.isEdgeUndirected l = g.isEdgeUndirected l := by
  unfold newVertex
  dsimp only
  split <;> rfl

/-! ### recycle_segments -/

def recycledOwner (own : Nat → Option Owner) (gone : List Nat) : Nat → Option Owner :=
  fun p => if p ∈ gone then none else own p

theorem recycledOwner_keeps {gone : List Nat} (hgone : ∀ p ∈ gone, own p = some .retired) {p : Nat}
    {o : Owner} (ho : o ≠ .retired) (hp : own p = some o) : recycledOwner own gone p = some o := by
  unfold recycledOwner
  rw [if_neg]
  · exact hp
  · intro hmem
    rw [hgone p hmem] at hp
    exact ho (Option.some.inj hp).symm

theorem free_capacity (old : List (Nat × Nat × Nat)) (bm : BlockManager) :
    (old.foldl (fun bm s => bm.free s.1 s.2.1) bm).capacity = bm.capacity := by
  induction old generalizing bm with
  | nil => rfl
  | cons x rest ih => exact ih _

theorem free_retired {bm : BlockManager} (hbm : bm.WellFormed) (howned : Owned bm own)
    {old : List (Nat × Nat × Nat)} (hold : ∀ x ∈ old, own x.1 = some .retired)
    (hnodup : (old.map Prod.fst).Nodup) :
    (old.foldl (fun bm s => bm.free s.1 s.2.1) bm).WellFormed ∧
    Owned (old.foldl (fun bm s => bm.free s.1 s.2.1) bm) (recycledOwner own (old.map Prod.fst)) := by
  induction old generalizing bm own with
  | nil =>
    refine ⟨hbm, ?_⟩
    intro p o hp
    simp only [recycledOwner, List.map_nil, List.not_mem_nil, if_false] at hp
    exact howned p o hp
  | cons x rest ih =>
    obtain ⟨hne, hout⟩ := howned x.1 .retired (hold x List.mem_cons_self)
    rw [List.map_cons, List.nodup_cons] at hnodup
    have howned' : Owned (bm.free x.1 x.2.1) (recycledOwner own [x.1]) := by
      intro p o hp
      simp only [recycledOwner, List.mem_singleton] at hp
      by_cases hpx : p = x.1
      · rw [if_pos hpx] at hp
        exact absurd hp (by simp)
      · rw [if_neg hpx] at hp
        obtain ⟨h0, h1⟩ := howned p o hp
        refine ⟨h0, ?_⟩
        intro hav
        rcases BlockManager.free_available.mp hav with hav | hav
        · exact h1 hav
        · exact hpx hav
    have hrest := ih (BlockManager.free_wellFormed hbm (Nat.pos_of_ne_zero hne) hout) howned' ?_
      hnodup.2
    · obtain ⟨hwf, hown⟩ := hrest
      refine ⟨hwf, ?_⟩
      intro p o hp
      refine hown p o ?_
      unfold recycledOwner at hp ⊢
      rw [List.map_cons] at hp
      by_cases hmem : p ∈ x.1 :: rest.map Prod.fst
      · rw [if_pos hmem] at hp
        exact absurd hp (by simp)
      · rw [if_neg hmem] at hp
        rw [List.mem_cons, not_or] at hmem
        rw [if_neg hmem.2, if_neg (by simpa using hmem.1)]
        exact hp
    · intro y hy
      have hyx : y.1 ≠ x.1 := by
        intro heq
        exact hnodup.1 (by rw [← heq]; exact List.mem_map_of_mem hy)
      simp only [recycledOwner, List.mem_singleton, if_neg hyx]
      exact hold y (List.mem_cons_of_mem _ hy)

theorem recycleSegments_inv (h : GraphInv tracked stride g own log hole) (epochId : Nat) :
    ∃ own', GraphInv tracked stride (g.recycleSegments epochId) own' log hole := by
  have hold : ∀ x ∈ g.segmentsToRecycle.filter (fun s => s.2.2 + lagEpochNumber < epochId),
      own x.1 = some .retired := fun x hx => h.recycled x (List.mem_filter.mp hx).1
  have hnodup : ((g.segmentsToRecycle.filter
      (fun s => s.2.2 + lagEpochNumber < epochId)).map Prod.fst).Nodup :=
    h.recycledOnce.sublist (List.filter_sublist.map _)
  obtain ⟨hbm, howned⟩ := free_retired h.bm h.owned hold hnodup
  have hcap := free_capacity (g.segmentsToRecycle.filter
    (fun s => s.2.2 + lagEpochNumber < epochId)) g.blockManager
  have hkeep : ∀ {p o}, o ≠ Owner.retired → own p = some o →
      recycledOwner own ((g.segmentsToRecycle.filter
        (fun s => s.2.2 + lagEpochNumber < epochId)).map Prod.fst) p = some o := by
    intro p o ho hp
    refine recycledOwner_keeps ?_ ho hp
    intro q hq
    obtain ⟨x, hx, rfl⟩ := List.mem_map.mp hq
    exact hold x hx
  refine ⟨_, hbm, ?_, howned, ?_, ?_, h.head, ?_, ?_, h.absent, h.both, h.short, h.unborn, h.segCount,
    ?_, ?_⟩
  · simp only [recycleSegments, hcap]
    exact h.capacity
  · intro s hs
    exact hkeep (by simp) (h.labels s hs)
  · intro s l d hne
    exact hkeep (by simp) (h.owner s l d hne)
  · intro s l d hne
    simp only [recycleSegments, hcap]
    exact h.buffer s l d hne
  · intro s l d hne
    exact (h.holds s l d hne).mono (fun t idx ht => hkeep (by simp) ht) (fun _ _ _ => rfl)
  · intro x hx
    obtain ⟨hmem, hlate⟩ := List.mem_filter.mp hx
    have hret := h.recycled x hmem
    unfold recycledOwner
    rw [if_neg]
    · exact hret
    · intro hx'
      obtain ⟨y, hy, heq⟩ := List.mem_map.mp hx'
      obtain ⟨hmem', hold'⟩ := List.mem_filter.mp hy
      have hxy : y = x := List.inj_on_of_nodup_map h.recycledOnce hmem' hmem heq
      subst hxy
      simp_all
  · exact h.recycledOnce.sublist (List.filter_sublist.map _)

theorem createGraphWriter_inv (h : GraphInv tracked stride g own log hole) (recycle : Bool)
    (writeEpoch : Nat) :
    ∃ own', GraphInv tracked stride (g.createGraphWriter recycle writeEpoch) own' log hole := by
  unfold createGraphWriter
  split
  · exact recycleSegments_inv h writeEpoch
  · exact ⟨own, h⟩

theorem createGraphWriter_sameGraph (g : SegGraph) (recycle : Bool) (writeEpoch : Nat) :
    SameGraph g (g.createGraphWriter recycle writeEpoch) := by
  unfold createGraphWriter
  split
  · exact ⟨rfl, rfl, free_capacity _ _⟩
  · exact ⟨rfl, rfl, rfl⟩

/-! ### The number of vertices

No call but `new_vertex` changes it, from any graph. -/

theorem vertexId_stable (n : Nat) : Stable fun g => g.vertexId = n where
  blockManager _ _ h := h
  segment _ _ _ h := h
  epochBlock _ _ _ h := h
  queue _ _ h := h
  labels _ _ _ _ _ h := updateEdgeLabelBlock_ignored (fun _ _ h => h) (fun _ _ _ h => h) (fun _ _ h => h) h

theorem putEdge_vertexId {g g' : SegGraph} {writeEpoch src label dst : Nat} {dir : Dir} {data : Bytes}
    (h : g.putEdge writeEpoch src label dir dst data = .ok g') : g'.vertexId = g.vertexId :=
  (putEdge_keeps (vertexId_stable g.vertexId) rfl).of_ok h

end Gart.Seggraph
