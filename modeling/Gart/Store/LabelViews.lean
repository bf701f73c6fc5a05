import Gart.Store.Deletion
import Gart.Store.PartitionInv

/-!
# Parts of labels through the operations

What an operation of the store does to one part of every label, and that writing edges does nothing to a part which does
not show the graphs.
-/

namespace Gart.Store
open Gart.ByteMemory Gart.Outcome Gart.Fragment Gart.Seggraph

/-- The parts of two stores are related label by label. -/
structure Views {X : Type} (view : LabelStore → X) (R : Nat → X → X → Prop) (s s' : GraphStore) : Prop where
  same : SameStore s s'
  length : s'.labels.length = s.labels.length
  label : ∀ i l', s'.labels[i]? = some l' → ∃ l, s.labels[i]? = some l ∧ R i (view l) (view l')

/-- A part that shows at most the numbers of vertices of the graphs. -/
structure IgnoresEdges {X : Type} (view : LabelStore → X) : Prop where
  graph : ∀ l g, g.vertexId = l.graph.vertexId → view { l with graph := g } = view l
  ovGraph : ∀ l g, g.vertexId = l.ovGraph.vertexId → view { l with ovGraph := g } = view l

section views
variable {X : Type} {view : LabelStore → X} {s s' s'' : GraphStore} {l l' : LabelStore} {vlabel : Nat}
  {R R' : Nat → X → X → Prop}

abbrev SameViews (view : LabelStore → X) : GraphStore → GraphStore → Prop := Views view fun _ x x' => x' = x

theorem SameViews.refl (s : GraphStore) : SameViews view s s := ⟨.refl s, rfl, fun _ l hl => ⟨l, hl, rfl⟩⟩

theorem Views.andThen (h : Views view R s s') (h' : SameViews view s' s'') : Views view R s s'' := by
  refine ⟨h.same.trans h'.same, h'.length.trans h.length, fun i l'' hl'' => ?_⟩
  obtain ⟨l', hl', heq⟩ := h'.label i l'' hl''
  obtain ⟨l, hl, hR⟩ := h.label i l' hl'
  rw [heq]
  exact ⟨l, hl, hR⟩

theorem Views.after (h : Views view R s' s'') (h' : SameViews view s s') : Views view R s s'' := by
  refine ⟨h'.same.trans h.same, h.length.trans h'.length, fun i l'' hl'' => ?_⟩
  obtain ⟨l', hl', hR⟩ := h.label i l'' hl''
  obtain ⟨l, hl, heq⟩ := h'.label i l' hl'
  rw [heq] at hR
  exact ⟨l, hl, hR⟩

theorem Views.mono (h : Views view R s s') (hR : ∀ i x x', R i x x' → R' i x x') : Views view R' s s' := by
  refine ⟨h.same, h.length, fun i l' hl' => ?_⟩
  obtain ⟨l, hl, hRl⟩ := h.label i l' hl'
  exact ⟨l, hl, hR _ _ _ hRl⟩

theorem views_one (hone : OneLabel vlabel l l' s s') (hR : R vlabel (view l) (view l'))
    (hrest : ∀ i x, i ≠ vlabel → R i x x) : Views view R s s' := by
  refine ⟨hone.same, hone.length, fun i m hm => ?_⟩
  rw [hone.after] at hm
  split at hm
  · rename_i hi
    rw [← Option.some.inj hm, hi]
    exact ⟨l, hone.before, hR⟩
  · rename_i hi
    exact ⟨m, hm, hrest i _ hi⟩

theorem sameViews_one (hone : OneLabel vlabel l l' s s') (h : view l' = view l) : SameViews view s s' :=
  views_one hone h fun _ _ _ => rfl

theorem foldlM_sameViews {α : Type} {step : GraphStore → α → Except StoreFault GraphStore}
    (hstep : ∀ s x s', step s x = .ok s' → SameViews view s s') {xs : List α} (h : xs.foldlM step s = .ok s') :
    SameViews view s s' := by
  induction xs generalizing s with
  | nil =>
    rw [← Except.ok.inj h]
    exact .refl s
  | cons x xs ih =>
    rw [List.foldlM_cons] at h
    obtain ⟨s1, hfirst, hrest⟩ := bind_eq_ok h
    exact (hstep s x s1 hfirst).andThen (ih hrest)

end views

/-! ### Writing edges -/

section edges
variable {X : Type} {view : LabelStore → X} {s s' : GraphStore} {l l' : LabelStore} {vlabel epoch elabel : Nat}
  {dir : Dir}
  {v : VertexRef}

theorem deleteEntry_vertexId {g g' : SegGraph} {w n label : Nat} {searched : Nat → Bool} {data : Bytes}
    (h : g.deleteEntry w n label dir searched data = .ok g') : g'.vertexId = g.vertexId := by
  unfold SegGraph.deleteEntry at h
  dsimp only at h
  split at h
  · cases h
  · obtain ⟨found, -, h⟩ := bind_eq_ok h
    split at h
    · rw [← Except.ok.inj h]
    · exact putEdge_vertexId h

theorem writer_vertexId {recycle : Bool} {w : Nat} (g g' : SegGraph)
    (h : (.ok (g.createGraphWriter recycle w) : Except Stop SegGraph) = .ok g') : g'.vertexId = g.vertexId := by
  rw [← Except.ok.inj h]
  exact (createGraphWriter_sameGraph g recycle w).vertexId

variable (hview : IgnoresEdges view)
include hview

theorem onGraph_sameViews {f : SegGraph → Except Stop SegGraph} (hf : ∀ g g', f g = .ok g' → g'.vertexId = g.vertexId)
    (h : s.onGraph vlabel f = .ok s') : SameViews view s s' := by
  obtain ⟨l, g, hone, hg⟩ := onGraph_cases h
  exact sameViews_one hone (hview.graph l g (hf l.graph g hg))

theorem onOvGraph_sameViews {f : SegGraph → Except Stop SegGraph}
    (hf : ∀ g g', f g = .ok g' → g'.vertexId = g.vertexId) (h : s.onOvGraph vlabel f = .ok s') :
    SameViews view s s' := by
  obtain ⟨l, g, hone, hg⟩ := onOvGraph_cases h
  exact sameViews_one hone (hview.ovGraph l g (hf l.ovGraph g hg))

theorem onSide_sameViews {outer : Bool} {f : SegGraph → Except Stop SegGraph}
    (hf : ∀ g g', f g = .ok g' → g'.vertexId = g.vertexId) (h : s.onSide outer vlabel f = .ok s') :
    SameViews view s s' := by
  unfold GraphStore.onSide at h
  split at h
  · exact onOvGraph_sameViews hview hf h
  · exact onGraph_sameViews hview hf h

theorem prepareEdge_sameViews {draws : GraphStore.Draws} {r : GraphStore.EdgeRecord} {data : Bytes}
    (h : s.prepareEdge draws r = .ok (data, s')) : SameViews view s s' := by
  unfold GraphStore.prepareEdge at h
  obtain ⟨s1, hsrc, h⟩ := bind_eq_ok h
  obtain ⟨s2, hdst, h⟩ := bind_eq_ok h
  obtain ⟨⟨data', strings⟩, -, h⟩ := bind_eq_ok h
  obtain ⟨-, hs⟩ := Prod.mk.inj (Except.ok.inj h)
  have h2 := (onGraph_sameViews hview writer_vertexId hsrc).andThen (onGraph_sameViews hview writer_vertexId hdst)
  rw [← hs]
  exact ⟨⟨h2.same.idParser, h2.same.localPid, h2.same.edgeDtypes, h2.same.globalVertexMap, h2.same.assignOther⟩,
    h2.length, h2.label⟩

theorem processDelEdge_sameViews {draws : GraphStore.Draws} {r : GraphStore.EdgeRecord}
    (h : s.processDelEdge draws r = .ok s') : SameViews view s s' := by
  unfold GraphStore.processDelEdge at h
  split at h
  · rw [← Except.ok.inj h]
    exact .refl s
  · obtain ⟨src, -, h⟩ := bind_eq_ok h
    obtain ⟨dst, -, h⟩ := bind_eq_ok h
    obtain ⟨s1, h1, h⟩ := bind_eq_ok h
    obtain ⟨s2, h2, h⟩ := bind_eq_ok h
    obtain ⟨s3, h3, h4⟩ := bind_eq_ok h
    exact (onSide_sameViews hview writer_vertexId h1).andThen ((onSide_sameViews hview writer_vertexId h2).andThen
      ((onSide_sameViews hview (fun _ _ => deleteEntry_vertexId) h3).andThen
        (onSide_sameViews hview (fun _ _ => deleteEntry_vertexId) h4)))

theorem deleteAtNeighbor_sameViews {recycle : Bool} {data : Bytes} {vid : Nat}
    (h : s.deleteAtNeighbor recycle epoch elabel dir v data vid = .ok s') : SameViews view s s' := by
  unfold GraphStore.deleteAtNeighbor at h
  dsimp only at h
  obtain ⟨l, -, h⟩ := bind_eq_ok h
  split at h
  · obtain ⟨s1, h1, h2⟩ := bind_eq_ok h
    exact (onGraph_sameViews hview writer_vertexId h1).andThen
      (onGraph_sameViews hview (fun _ _ => deleteEntry_vertexId) h2)
  · split at h
    · rw [← Except.ok.inj h]
      exact .refl s
    · obtain ⟨s1, h1, h2⟩ := bind_eq_ok h
      exact (onOvGraph_sameViews hview writer_vertexId h1).andThen
        (onOvGraph_sameViews hview (fun _ _ => deleteEntry_vertexId) h2)

theorem deleteEdge_sameViews {recycle : Bool} {found : Nat × Nat}
    (h : s.deleteEdge recycle epoch elabel dir v found = .ok s') : SameViews view s s' := by
  unfold GraphStore.deleteEdge at h
  obtain ⟨s1, h1, h2⟩ := bind_eq_ok h
  exact (onSide_sameViews hview (fun _ _ => putEdge_vertexId) h1).andThen (deleteAtNeighbor_sameViews hview h2)

theorem deleteRelatedEdges_sameViews {draws : GraphStore.VertexDraws}
    (h : s.deleteRelatedEdges draws epoch v = .ok s') : SameViews view s s' := by
  have hlabel : ∀ dir s elabel s', GraphStore.deleteEdges s draws epoch v dir elabel = .ok s' →
      SameViews view s s' := by
    intro dir s elabel s' h
    unfold GraphStore.deleteEdges at h
    obtain ⟨l, -, h⟩ := bind_eq_ok h
    obtain ⟨found, -, h⟩ := bind_eq_ok h
    exact foldlM_sameViews (fun _ _ _ => deleteEdge_sameViews hview) h
  unfold GraphStore.deleteRelatedEdges at h
  obtain ⟨s1, h1, h2⟩ := bind_eq_ok h
  exact (foldlM_sameViews (hlabel .eout) h1).andThen (foldlM_sameViews (hlabel .ein) h2)

end edges

/-! ### Records -/

/-- The outer vertex that an edge has in a partition, with its external id. -/
def outerOf (parser : IdParser) (pid : Nat) (r : GraphStore.EdgeRecord) : Option (Nat × Bytes) :=
  if parser.getFid r.srcVid = pid then
    if parser.getFid r.dstVid = pid then none else some (r.dstVid, r.dstExternalId)
  else if parser.getFid r.dstVid = pid then some (r.srcVid, r.srcExternalId)
  else none

section records
variable {X : Type} {view : LabelStore → X} {s s' : GraphStore} {epoch : Nat}

theorem processAddEdge_views (hview : IgnoresEdges view) {Meets : Nat × Bytes → Nat → X → X → Prop}
    (hmeets : ∀ s1 s2 recycle epoch outer ov, SameStore s s1 →
      s1.outerEndpoint recycle epoch outer.1 outer.2 = .ok (ov, s2) → Views view (Meets outer) s1 s2)
    {draws : GraphStore.Draws} {r : GraphStore.EdgeRecord} (h : s.processAddEdge draws r = .ok s') :
    Views view (fun i x x' => match outerOf s.idParser s.localPid r with
      | some outer => Meets outer i x x'
      | none => x' = x) s s' := by
  unfold GraphStore.processAddEdge at h
  dsimp only at h
  split at h
  · rename_i hneither
    rw [← Except.ok.inj h]
    refine (SameViews.refl s).mono fun i x x' hx => ?_
    unfold outerOf
    rw [if_neg hneither.1, if_neg hneither.2]
    exact hx
  · rename_i hsome
    obtain ⟨⟨data, s1⟩, hprepare, h⟩ := bind_eq_ok h
    have h1 := prepareEdge_sameViews hview hprepare
    dsimp only at h
    rw [h1.same.localPid] at h
    split at h
    · rename_i hcase
      obtain ⟨⟨ov, s2⟩, hendpoint, h⟩ := bind_eq_ok h
      have h2 := hmeets s1 s2 _ _ (r.dstVid, r.dstExternalId) ov h1.same hendpoint
      obtain ⟨s3, hout, hin⟩ := bind_eq_ok h
      have h3 := (onGraph_sameViews hview (fun _ _ => putEdge_vertexId) hout).andThen
        (onOvGraph_sameViews hview (fun _ _ => putEdge_vertexId) hin)
      refine ((h2.andThen h3).after h1).mono fun i x x' hx => ?_
      unfold outerOf
      rw [if_pos hcase.1, if_neg hcase.2]
      exact hx
    · rename_i hnot
      split at h
      · rename_i hcase
        obtain ⟨⟨ov, s2⟩, hendpoint, h⟩ := bind_eq_ok h
        have h2 := hmeets s1 s2 _ _ (r.srcVid, r.srcExternalId) ov h1.same hendpoint
        obtain ⟨s3, hout, hin⟩ := bind_eq_ok h
        have h3 := (onOvGraph_sameViews hview (fun _ _ => putEdge_vertexId) hout).andThen
          (onGraph_sameViews hview (fun _ _ => putEdge_vertexId) hin)
        refine ((h2.andThen h3).after h1).mono fun i x x' hx => ?_
        unfold outerOf
        rw [if_neg hcase.1, if_pos hcase.2]
        exact hx
      · rename_i hnot'
        obtain ⟨s3, hout, hin⟩ := bind_eq_ok h
        have h3 := (onGraph_sameViews hview (fun _ _ => putEdge_vertexId) hout).andThen
          (onGraph_sameViews hview (fun _ _ => putEdge_vertexId) hin)
        refine (h3.after h1).mono fun i x x' hx => ?_
        have hsrc : s.idParser.getFid r.srcVid = s.localPid := by
          by_contra hne
          by_cases hdst : s.idParser.getFid r.dstVid = s.localPid
          · exact hnot' ⟨hne, hdst⟩
          · exact hsome ⟨hne, hdst⟩
        have hdst : s.idParser.getFid r.dstVid = s.localPid := by
          by_contra hne
          exact hnot ⟨hsrc, hne⟩
        unfold outerOf
        rw [if_pos hsrc, if_pos hdst]
        exact hx

theorem applyRecords_views {apply : GraphStore → Nat → X → Record → Except StoreFault X}
    (hsame : ∀ s s', SameStore s s' → apply s' = apply s)
    (hstep : ∀ s s' r, s.applyRecord r = .ok s' → Views view (fun i x x' => apply s i x r.2 = .ok x') s s')
    {lines : List (GraphStore.RecordDraws × Record)} (h : lines.foldlM GraphStore.applyRecord s = .ok s') :
    Views view (fun i x x' => (lines.map Prod.snd).foldlM (apply s i) x = .ok x') s s' := by
  induction lines generalizing s with
  | nil =>
    rw [← Except.ok.inj h]
    exact ⟨.refl s, rfl, fun i l hl => ⟨l, hl, rfl⟩⟩
  | cons r lines ih =>
    rw [List.foldlM_cons] at h
    obtain ⟨s1, hfirst, hrest⟩ := bind_eq_ok h
    have h1 := hstep s s1 r hfirst
    have h2 := ih hrest
    refine ⟨h1.same.trans h2.same, h2.length.trans h1.length, fun i l'' hl'' => ?_⟩
    obtain ⟨l', hl', hlater⟩ := h2.label i l'' hl''
    obtain ⟨l, hl, hnow⟩ := h1.label i l' hl'
    rw [hsame s s1 h1.same] at hlater
    refine ⟨l, hl, ?_⟩
    rw [List.map_cons, List.foldlM_cons, hnow]
    exact hlater

end records

end Gart.Store
