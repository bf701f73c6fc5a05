import Gart.Seggraph.Extents

/-!
# put_edge keeps the invariant

One specification for each stage of `put_edge`: the segment is found or created,
a block with space is found or made, the epoch table is prepared, and the edge
goes behind the last one. Together the list of the edge grows by one entry and
every other list stays as it was.
-/

namespace Gart.Seggraph
open Gart.ByteMemory Gart.Outcome SegGraph

/-- What no call of `put_edge` changes. -/
structure SameGraph (g g' : SegGraph) : Prop where
  vertexId : g'.vertexId = g.vertexId
  undirected : g'.edgeIsUndirected = g.edgeIsUndirected
  capacity : g'.blockManager.capacity = g.blockManager.capacity

abbrev NoHole : Nat → Nat → Dir → Prop := fun _ _ _ => False

/-- The list of vertex `v` is in the middle of an insertion. -/
def HoleAt (undirected : Bool) (v label : Nat) (dir : Dir) : Nat → Nat → Dir → Prop :=
  fun v' l' d' => v' = v ∧ l' = label ∧ SameList undirected dir d'

theorem holeAt_of_same {undirected : Bool} {v v' label : Nat} {dir dir' : Dir}
    (h : SameList undirected dir dir') : HoleAt undirected v label dir v' label dir' ↔ v' = v :=
  ⟨fun hh => hh.1, fun hv => ⟨hv, rfl, h⟩⟩

def appendLog (undirected : Bool) (log : Log) (v label : Nat) (dir : Dir) (entry : LogEntry) : Log :=
  fun v' l' d' =>
    if v' = v ∧ l' = label ∧ SameList undirected dir d' then log v' l' d' ++ [entry]
    else log v' l' d'

section appendLog
variable {undirected : Bool} {log : Log} {v v' label l' : Nat} {dir d' : Dir} {entry : LogEntry}

theorem appendLog_of_not (h : ¬ (v' = v ∧ l' = label ∧ SameList undirected dir d')) :
    appendLog undirected log v label dir entry v' l' d' = log v' l' d' := if_neg h

theorem appendLog_of_same (h : SameList undirected dir d') :
    appendLog undirected log v label dir entry v' label d' =
      if v' = v then log v' label d' ++ [entry] else log v' label d' := by
  simp only [appendLog, h, and_true]

theorem appendLog_length_lt (hlog : ∀ v l d, (log v l d).length < 2 ^ 32)
    (hone : ∀ d', SameList undirected dir d' → (log v label d').length + 1 < 2 ^ 32) :
    (appendLog undirected log v label dir entry v' l' d').length < 2 ^ 32 := by
  unfold appendLog
  split
  · rename_i hon
    obtain ⟨rfl, rfl, hd⟩ := hon
    rw [List.length_append, List.length_singleton]
    exact hone d' hd
  · exact hlog v' l' d'

end appendLog

/-- The next block of a vertex takes no slots whose properties fit at `width`
but not at `stride`. -/
def NoGap (stride width : Nat) (seg : VegitoSegment) (idx : Nat) : Prop :=
  let edgeBlock := seg.regionPtrs idx
  let order := if edgeBlock ≠ 0 then seg.getOrder edgeBlock + 1 else defaultInitOrder
  Fits width (seg.allocatedEdgeNum + (3 + 2 ^ order)) seg.order →
    Fits stride (seg.allocatedEdgeNum + (3 + 2 ^ order)) seg.order

instance (stride width : Nat) (seg : VegitoSegment) (idx : Nat) :
    Decidable (NoGap stride width seg idx) :=
  inferInstanceAs (Decidable (_ → _))

/-! ### The newest block -/

/-- The newest block of a vertex, with space for one more entry. -/
structure HasRoom (seg : VegitoSegment) (idx edgeBlock : Nat) : Prop where
  newest : seg.regionPtrs idx = edgeBlock
  ne_zero : edgeBlock ≠ 0
  space : seg.getNumEntries edgeBlock < 2 ^ seg.getOrder edgeBlock

section newest
variable {tracked : Prop} {stride : Nat} {seg : VegitoSegment} {C : Nat → List Block} {idx : Nat}

theorem SegInv.of_hasRoom (h : SegInv tracked stride seg C) {edgeBlock : Nat}
    (hroom : HasRoom seg idx edgeBlock) : ∃ b rest, C idx = b :: rest ∧
      edgeBlock = b.pointer seg.head ∧ b.edges.length < 2 ^ b.order := by
  have hregion := h.region idx
  have hchain := h.chain idx
  cases hC : C idx with
  | nil =>
    rw [hC] at hregion
    exact absurd (hroom.newest.symm.trans hregion) hroom.ne_zero
  | cons b rest =>
    rw [hC] at hregion hchain
    have hptr : edgeBlock = b.pointer seg.head := hroom.newest.symm.trans hregion
    have hspace := hroom.space
    rw [hptr, hchain.1.getNumEntries, hchain.1.getOrder] at hspace
    exact ⟨b, rest, rfl, hptr, hspace⟩

theorem SegInv.hasRoom (h : SegInv tracked stride seg C) {b : Block} {rest : List Block}
    (hC : C idx = b :: rest) (hspace : b.edges.length < 2 ^ b.order) :
    HasRoom seg idx (b.pointer seg.head) := by
  have hregion := h.region idx
  have hchain := h.chain idx
  rw [hC] at hregion hchain
  refine ⟨hregion, Block.pointer_ne_zero _ _, ?_⟩
  rw [hchain.1.getNumEntries, hchain.1.getOrder]
  exact hspace

theorem SegInv.hasSpace_or_full (h : SegInv tracked stride seg C)
    (hnum : (chainEdges (C idx)).length + 1 < 2 ^ 32) :
    (HasRoom seg idx (seg.regionPtrs idx) ∧
      (seg.regionPtrs idx ≠ 0 ∧ seg.hasSpace (seg.regionPtrs idx) = true)) ∨
    (HeadFull (C idx) ∧ ¬ (seg.regionPtrs idx ≠ 0 ∧ seg.hasSpace (seg.regionPtrs idx) = true)) := by
  have hregion := h.region idx
  have hchain := h.chain idx
  cases hC : C idx with
  | nil =>
    rw [hC] at hregion
    refine Or.inr ⟨trivial, ?_⟩
    rintro ⟨hne, -⟩
    exact hne hregion
  | cons b rest =>
    rw [hC] at hregion hchain hnum
    simp only [chainEdges, List.length_append] at hnum
    have hspace := hchain.1.hasSpace (by omega)
    have hbound := hchain.1.room
    rw [hregion]
    simp only [chainPtr]
    by_cases hlt : b.edges.length < 2 ^ b.order
    · exact Or.inl ⟨h.hasRoom hC hlt, Block.pointer_ne_zero _ _, by rw [hspace]; exact decide_eq_true hlt⟩
    · refine Or.inr ⟨by simp only [HeadFull]; omega, ?_⟩
      rintro ⟨-, htrue⟩
      rw [hspace] at htrue
      exact hlt (of_decide_eq_true htrue)

theorem SegInv.order_eq_nextOrder (h : SegInv tracked stride seg C) :
    (if seg.regionPtrs idx ≠ 0 then seg.getOrder (seg.regionPtrs idx) + 1 else defaultInitOrder) =
      nextOrder (C idx) := by
  have hregion := h.region idx
  have hchain := h.chain idx
  cases hC : C idx with
  | nil =>
    rw [hC] at hregion
    rw [if_neg (by rw [hregion]; simp [chainPtr])]
    rfl
  | cons b rest =>
    rw [hC] at hregion hchain
    have hptr : seg.regionPtrs idx = b.pointer seg.head := hregion
    have hne : seg.regionPtrs idx ≠ 0 := by
      rw [hptr]
      exact Block.pointer_ne_zero _ _
    rw [if_pos hne, hptr, hchain.1.getOrder]
    rfl

end newest

/-! ### Small changes of the invariant -/

section inv
variable {tracked : Nat → Prop} {stride : Nat → Nat} {g : SegGraph} {own : Nat → Option Owner}
  {log : Log} {hole hole' : Nat → Nat → Dir → Prop}

theorem GraphInv.congr_segments (h : GraphInv tracked stride g own log hole)
    {segs : Nat → VegitoSegment}
    (hsegs : ∀ s l d, g.locateSegment s l d ≠ 0 →
      segs (g.locateSegment s l d) = g.segments (g.locateSegment s l d)) :
    GraphInv tracked stride { g with segments := segs } own log hole where
  bm := h.bm
  capacity := h.capacity
  owned := h.owned
  labels := h.labels
  owner := h.owner
  head s l d hne := by
    change g.locateSegment s l d ≠ 0 at hne
    change (segs (g.locateSegment s l d)).head = g.locateSegment s l d
    rw [hsegs s l d hne]
    exact h.head s l d hne
  buffer s l d hne := by
    change g.locateSegment s l d ≠ 0 at hne
    change g.locateSegment s l d + 2 ^ (segs (g.locateSegment s l d)).order ≤ _
    rw [hsegs s l d hne]
    exact h.buffer s l d hne
  holds s l d hne := by
    change g.locateSegment s l d ≠ 0 at hne
    change SegHolds (tracked l) (stride l) (segs (g.locateSegment s l d)) g.epochBlocks own
      (fun idx => .epochs s l (g.canonDir l d) idx) _ _
    rw [hsegs s l d hne]
    exact h.holds s l d hne
  absent := h.absent
  both := h.both
  short := h.short
  unborn := h.unborn
  segCount := h.segCount
  recycled := h.recycled
  recycledOnce := h.recycledOnce

theorem GraphInv.open_hole (h : GraphInv tracked stride g own log NoHole) :
    GraphInv tracked stride g own log hole where
  bm := h.bm
  capacity := h.capacity
  owned := h.owned
  labels := h.labels
  owner := h.owner
  head := h.head
  buffer := h.buffer
  holds s l d hne := by
    obtain ⟨C, hinv, hlists⟩ := h.holds s l d hne
    refine ⟨C, hinv, ?_⟩
    intro idx hidx
    have hl := hlists idx hidx
    exact ⟨hl.edges, fun _ => hl.head (fun hf => hf), hl.noTable, hl.table, hl.older⟩
  absent := h.absent
  both := h.both
  short := h.short
  unborn := h.unborn
  segCount := h.segCount
  recycled := h.recycled
  recycledOnce := h.recycledOnce

/-! ### The stages -/

variable {s l idx w p width : Nat} {d : Dir}

theorem fits_fresh {stride : Nat} (hstride : stride ≤ 16382) :
    Fits stride (0 + (3 + 2 ^ defaultInitOrder)) initSegmentOrder := by
  have hheader : segmentHeaderSize = 65560 := rfl
  simp only [Fits, defaultInitOrder, initSegmentOrder]
  omega

theorem initSegment_spec (h : GraphInv tracked stride g own log NoHole)
    (hborn : s * vertexPerSeg < g.vertexId) (hexact : stride l ≤ 16382 ∨ width = stride l)
    (hgap : g.locateSegment s l d ≠ 0 →
      NoGap (stride l) width (g.segments (g.locateSegment s l d)) idx) :
    Ensures (g.initSegment s l d)
      (fun r => (∃ own', GraphInv tracked stride r.2 own' log NoHole) ∧ SameGraph g r.2 ∧
        r.2.locateSegment s l d = r.1 ∧ r.1 ≠ 0 ∧
        NoGap (stride l) width (r.2.segments r.1) idx ∧ Extends g r.2) Stop.Exhausted := by
  unfold initSegment
  dsimp only
  by_cases h0 : g.locateSegment s l d = 0
  · rw [if_neg (by simpa using h0)]
    refine Ensures.bind ((allocBlock_spec h.bm initSegmentOrder).and_of_ok fun _ => allocBlock_handed) ?_
    rintro ⟨p', g1⟩ ⟨⟨bm1, hg1, halloc⟩, hhanded⟩
    subst hg1
    dsimp only at halloc hhanded ⊢
    by_cases hp' : p' = 0
    · rw [if_pos hp']
      trivial
    · rw [if_neg hp']
      obtain ⟨ha, haddr⟩ := halloc.resolve_left hp'
      generalize hg2 : SegGraph.setSegment _ p' _ = g2
      have hbm : g2.blockManager.WellFormed := by
        rw [← hg2]
        exact ha.wellFormed
      refine Ensures.bind ((updateEdgeLabelBlock_spec hbm s l d p').and_of_ok fun _ => updateEdgeLabelBlock_kept) ?_
      rintro g3 ⟨⟨q, bm2, block, hg3, hob, hentries⟩, hkept⟩
      subst hg2
      have hr : Relocation g s l d p' q bm1 bm2 block := ⟨ha, hob, hentries⟩
      have hg3' : g3 = relocated g s p' q ((g.segments p').fill p' initSegmentOrder s) bm2 block [] := by
        rw [hg3]
        simp only [relocated, SegGraph.setSegment, List.append_nil]
      subst hg3'
      have hcap := h.capacity
      have hinv : SegInv (tracked l) (stride l) ((g.segments p').fill p' initSegmentOrder s)
          fun _ => [] := segInv_fill (by decide) (by omega)
      have hholds : SegHolds (tracked l) (stride l) ((g.segments p').fill p' initSegmentOrder s)
          g.epochBlocks own (fun idx => .epochs s l (g.canonDir l d) idx)
          (fun idx => NoHole (vertexOf s idx) l d) (fun idx => log (vertexOf s idx) l d) := by
        refine ⟨fun _ => [], hinv, ?_⟩
        intro i hi
        dsimp only
        rw [h.absent s l d h0 i hi]
        exact ⟨rfl, by simp, fun _ => rfl, fun hne => absurd rfl hne, by simp⟩
      have hloc : (relocated g s p' q ((g.segments p').fill p' initSegmentOrder s) bm2 block
          []).locateSegment s l d = p' := by
        rw [h.relocate_locate hr, if_pos ⟨rfl, rfl, Or.inl rfl⟩]
      refine ⟨⟨_, h.relocate hr rfl haddr (Or.inl ⟨rfl, h0⟩) hholds hborn (fun _ _ _ _ => Iff.rfl)
        (fun _ _ _ => Iff.rfl)⟩, ⟨rfl, rfl, hob.capacity.trans ha.capacity⟩, hloc, hp', ?_, ?_⟩
      rotate_left
      · unfold LabelsKept at hkept
        simp only [relocated, Function.update_self] at hkept
        refine h.extends_relocated hr (fun x hx _ => Function.update_of_ne hx _ _) ?_ hkept (fun idx ht => ?_)
          fun x hx => by cases hx
        · rw [Function.update_self]
          exact hhanded hp'
        · rw [Function.update_self] at ht
          exact absurd rfl ht
      have hseg : (relocated g s p' q ((g.segments p').fill p' initSegmentOrder s) bm2 block
          []).segments p' = (g.segments p').fill p' initSegmentOrder s := by
        simp [relocated]
      dsimp only
      rw [hseg]
      intro hfits
      rcases hexact with hstride | hexact
      · exact fits_fresh hstride
      · rw [← hexact]
        exact hfits
  · rw [if_pos h0]
    exact ⟨⟨own, h⟩, ⟨rfl, rfl, rfl⟩, rfl, h0, hgap h0, .refl g⟩

theorem holeAt_off (hidx : idx < vertexPerSeg) (v l' : Nat) (d' : Dir) (hoff : ¬ OnList g s l d v l' d') :
    HoleAt (g.isEdgeUndirected l) (vertexOf s idx) l d v l' d' ↔ NoHole v l' d' := by
  refine iff_of_false ?_ (fun hf => hf)
  rintro ⟨rfl, rfl, hd⟩
  exact hoff ⟨div_vertexOf hidx, rfl, hd⟩

theorem ListOk.merged {eb : Nat → EpochBlock} {owner : Owner} {table : Nat} {chain chain' : List Block}
    {entries : List LogEntry} {hole : Prop} {pending : Option Nat} {C : Nat → List Block} {i : Nat}
    (h : ListOk eb own False owner table chain entries) (hC : C i = chain)
    (hpending : pending = some i → hole) (hchain : MergedChain pending C i chain') :
    ListOk eb own hole owner (if MergeSkips pending C i then 0 else table) chain' entries := by
  have hedges := h.edges
  by_cases hskip : MergeSkips pending C i
  · rw [MergedChain, if_pos hskip] at hchain
    have hlen := hskip.1
    rw [hC, hedges, List.length_map] at hlen
    have hnil : entries = [] := List.eq_nil_of_length_eq_zero hlen
    subst hchain hnil
    rw [if_pos hskip]
    exact ⟨rfl, by simp, fun _ => rfl, fun hne => absurd rfl hne, by simp⟩
  · rw [MergedChain, if_neg hskip] at hchain
    obtain ⟨b, rfl, hb, -⟩ := hchain
    rw [if_neg hskip]
    refine ⟨?_, ?_, h.noTable, h.table, ?_⟩
    · simp only [chainEdges, List.nil_append]
      rw [hb, hC, hedges]
    · intro hn b' rest heq
      simp only [List.cons.injEq] at heq
      rw [← heq.1, hb]
      intro hnil
      exact hskip ⟨by simp [hnil], fun hp => hn (hpending hp)⟩
    · intro b' rest heq c hc
      rw [← (List.cons.inj heq).2] at hc
      cases hc

theorem Merging.holds {tracked : Prop} {stride : Nat} {old new0 : VegitoSegment}
    {C C' : Nat → List Block} {state : VegitoSegment × Nat} {eb : Nat → EpochBlock}
    {owner : Nat → Owner} {entries : Nat → List LogEntry} {hole : Nat → Prop}
    (h : Merging tracked stride old new0 (some idx) C vertexPerSeg state C')
    (hlists : ∀ i, i < vertexPerSeg →
      ListOk eb own False (owner i) (old.epochTables i) (C i) (entries i))
    (hhole : hole idx) : SegHolds tracked stride state.1 eb own owner hole entries := by
  refine ⟨C', h.inv, ?_⟩
  intro i hi
  have hpending : some idx = some i → hole i := by
    intro heq
    rw [← Option.some.inj heq]
    exact hhole
  have hl := (hlists i hi).merged rfl hpending (h.done i hi)
  rw [h.tables i]
  by_cases hskip : MergeSkips (some idx) C i
  · rw [if_pos hskip] at hl
    rw [if_neg (fun hh => hh.2 hskip)]
    exact hl
  · rw [if_neg hskip] at hl
    rw [if_pos ⟨hi, hskip⟩]
    exact hl

theorem Merging.hasRoom {tracked : Prop} {stride : Nat} {old new0 : VegitoSegment}
    {C C' : Nat → List Block} {state : VegitoSegment × Nat}
    (h : Merging tracked stride old new0 (some idx) C vertexPerSeg state C')
    (hidx : idx < vertexPerSeg) : HasRoom state.1 idx state.2 := by
  have hdone := h.done idx hidx
  have hskip : ¬ MergeSkips (some idx) C idx := fun hs => hs.2 rfl
  rw [MergedChain, if_neg hskip] at hdone
  obtain ⟨b, hb, hedges, hord⟩ := hdone
  have hle := le_two_pow_sizeToOrder (mergedSize (some idx) C idx)
  rw [← hord, mergedSize, if_pos rfl] at hle
  have hptr := h.pendingBlock idx rfl hidx
  rw [hb, ← h.head] at hptr
  rw [hptr]
  exact h.inv.hasRoom hb (by rw [hedges]; omega)

/-- The ways in which `put_edge` fails: no block is left, or a merge of properties of more than
16382 bytes does not fit. -/
def Overflows (stride : Nat) (stop : Stop) : Prop := stop.Exhausted ∨ 16382 < stride

theorem mergeIntoNewSegment_spec {order : Nat} (h : GraphInv tracked stride g own log NoHole)
    (hp : g.locateSegment s l d = p) (hp0 : p ≠ 0) (hidx : idx < vertexPerSeg)
    (hborn : s * vertexPerSeg < g.vertexId) (hexact : stride l ≤ 16382 ∨ width = stride l)
    (hwidth : width ≤ stride l) (htrack : tracked l → width = stride l) :
    Ensures
      ((g.setSegment p (bumped (g.segments p) order)).mergeIntoNewSegment w s l d idx p width)
      (fun r => (∃ own', GraphInv tracked stride r.2.2 own' log
          (HoleAt (g.isEdgeUndirected l) (vertexOf s idx) l d)) ∧
        SameGraph g r.2.2 ∧ r.2.2.locateSegment s l d = r.1 ∧ r.1 ≠ 0 ∧
        HasRoom (r.2.2.segments r.1) idx r.2.1 ∧ Extends g r.2.2) (Overflows (stride l)) := by
  obtain ⟨C, hinv, hlists⟩ := h.holds s l d (by rw [hp]; exact hp0)
  rw [hp] at hinv hlists
  have hold := hinv.mergeSource order
  have hseg : (g.setSegment p (bumped (g.segments p) order)).segments p =
      bumped (g.segments p) order := by
    simp [SegGraph.setSegment]
  unfold mergeIntoNewSegment
  dsimp only
  rw [hseg]
  have hbm : (g.setSegment p (bumped (g.segments p) order)).blockManager.WellFormed := h.bm
  refine Ensures.bind (((allocBlock_spec hbm _).and_of_ok fun _ => allocBlock_handed).mono (fun _ hq => hq)
    fun _ => Or.inl) ?_
  rintro ⟨p', g1⟩ ⟨⟨bm1, hg1, halloc⟩, hhanded⟩
  subst hg1
  dsimp only at halloc hhanded ⊢
  by_cases hp' : p' = 0
  · rw [if_pos hp']
    exact Or.inl trivial
  · rw [if_neg hp']
    obtain ⟨ha, haddr⟩ := halloc.resolve_left hp'
    have hcap := h.capacity
    have hfits := hinv.fits
    unfold Fits at hfits
    have hpow : 2 ^ ((g.segments p).order + 1) = 2 * 2 ^ (g.segments p).order := by
      rw [Nat.pow_succ, Nat.mul_comm]
    generalize hnew0 : ((g.setSegment p (bumped (g.segments p) order)).segments p').fill p'
      ((bumped (g.segments p) order).order + 1) s = new0
    have hinv0 : SegInv (tracked l) (stride l) new0 fun _ => [] := by
      rw [← hnew0]
      refine segInv_fill ?_ ?_
      · simp only [bumped]
        omega
      · change p' + 2 ^ ((bumped (g.segments p) order).order + 1) ≤ g.blockManager.capacity at haddr
        omega
    have hnum : ∀ i, i < vertexPerSeg → (chainEdges (C i)).length < 2 ^ 32 := by
      intro i hi
      rw [(hlists i hi).edges, List.length_map]
      exact h.short _ _ _
    have hroom : stride l ≤ 16382 → Fits (stride l)
        (∑ i ∈ Finset.range vertexPerSeg, mergeCost (some idx) C i) new0.order := by
      intro hstride
      rw [← hnew0]
      exact hinv.merge_fits hstride (some idx)
    refine Ensures.bind ((mergeSegment_spec hold hinv0 (by rw [← hnew0]; rfl) (by rw [← hnew0]; rfl)
      (hexact.imp_left hroom) hnum hwidth htrack).mono
      (F := fun f => Overflows (stride l) (.fault f)) (fun _ hm => hm)
      (fun _ hfull => Or.inr (Nat.not_le.mp fun hstride => hfull (hroom hstride)))).mapError ?_
    rintro ⟨new, edgeBlock⟩ ⟨C', hm⟩
    have hhead0 : new0.head = p' := by
      rw [← hnew0]
      rfl
    dsimp only
    refine Ensures.bind (((updateEdgeLabelBlock_spec ?_ s l d p').and_of_ok fun _ => updateEdgeLabelBlock_kept).mono
      (fun _ hq => hq) fun _ => Or.inl) ?_
    · exact ha.wellFormed
    rintro g3 ⟨⟨q, bm2, block, hg3, hob, hentries⟩, hkept⟩
    have hr : Relocation g s l d p' q bm1 bm2 block := ⟨ha, hob, hentries⟩
    have hholds : SegHolds (tracked l) (stride l) new g.epochBlocks own
        (fun i => .epochs s l (g.canonDir l d) i)
        (fun i => HoleAt (g.isEdgeUndirected l) (vertexOf s idx) l d (vertexOf s i) l d)
        (fun i => log (vertexOf s i) l d) := hm.holds hlists ⟨rfl, rfl, Or.inl rfl⟩
    have hloc : ∀ s' l' d', (relocated g s p' q new bm2 block
        [(p, (bumped (g.segments p) order).order, w)]).locateSegment s' l' d' =
          if s' = s ∧ l' = l ∧ SameList (g.isEdgeUndirected l) d d' then p'
          else g.locateSegment s' l' d' := h.relocate_locate hr
    have hlocNew := hloc s l d
    rw [if_pos ⟨rfl, rfl, Or.inl rfl⟩] at hlocNew
    have hg3' : g3 = { relocated g s p' q new bm2 block
          [(p, (bumped (g.segments p) order).order, w)] with
        segments := Function.update (Function.update g.segments p
          (bumped (g.segments p) order)) p' new } := hg3
    subst hg3'
    refine ⟨⟨_, GraphInv.congr_segments (h.relocate hr (hm.head.trans hhead0)
      (by rw [hm.order, ← hnew0]; exact haddr) (Or.inr ⟨_, _, by rw [hp], by rw [hp]; exact hp0⟩)
      hholds hborn (holeAt_off hidx) ?_) ?_⟩, ⟨rfl, rfl, hob.capacity.trans ha.capacity⟩, hlocNew,
      hp', ?_⟩
    · intro v d' hd
      exact (holeAt_of_same hd).trans (holeAt_of_same (Or.inl rfl)).symm
    · -- no list lies in the old segment any more
      intro s' l' d' hne
      rw [hloc] at hne ⊢
      by_cases hon : s' = s ∧ l' = l ∧ SameList (g.isEdgeUndirected l) d d'
      · rw [if_pos hon]
        simp [relocated]
      · rw [if_neg hon] at hne ⊢
        have hnep : g.locateSegment s' l' d' ≠ p := by
          intro heq
          exact hon (h.locate_inj (by rw [hp]; exact hp0) (heq.trans hp.symm))
        simp only [relocated, Function.update_apply, if_neg hnep]
    · simp only [Function.update_self]
      refine ⟨hm.hasRoom hidx, ?_⟩
      unfold LabelsKept at hkept
      simp only [relocated, Function.update_self] at hkept
      refine h.extends_relocated hr (fun x hx hxp => ?_) ?_ hkept (fun i ht => ?_) fun x hx => ?_
      · rw [Function.update_of_ne hx, Function.update_of_ne (hp ▸ hxp)]
      · rw [Function.update_self, hm.order, ← hnew0]
        exact hhanded hp'
      · rw [Function.update_self, hm.tables i] at ht ⊢
        rw [hp]
        by_cases hdone : i < vertexPerSeg ∧ ¬ MergeSkips (some idx) C i
        · rw [if_pos hdone]
          exact ⟨hp0, rfl⟩
        · rw [if_neg hdone] at ht
          exact absurd rfl ht
      · rw [List.mem_singleton.mp hx, hp]
        exact ⟨hp0, rfl, rfl⟩

theorem roomForEdge_spec (h : GraphInv tracked stride g own log NoHole)
    (hp : g.locateSegment s l d = p) (hp0 : p ≠ 0) (hidx : idx < vertexPerSeg)
    (hborn : s * vertexPerSeg < g.vertexId) (hexact : stride l ≤ 16382 ∨ width = stride l)
    (hwidth : width ≤ stride l) (htrack : tracked l → width = stride l)
    (hgap : NoGap (stride l) width (g.segments p) idx)
    (hshort : (log (vertexOf s idx) l d).length + 1 < 2 ^ 32) :
    Ensures (g.roomForEdge w s l d idx p width)
      (fun r => (∃ own', GraphInv tracked stride r.2.2 own' log
          (HoleAt (g.isEdgeUndirected l) (vertexOf s idx) l d)) ∧
        SameGraph g r.2.2 ∧ r.2.2.locateSegment s l d = r.1 ∧ r.1 ≠ 0 ∧
        HasRoom (r.2.2.segments r.1) idx r.2.1 ∧ Extends g r.2.2) (Overflows (stride l)) := by
  obtain ⟨C, hinv, hlists⟩ := h.holds s l d (by rw [hp]; exact hp0)
  rw [hp] at hinv hlists
  have hnum : (chainEdges (C idx)).length + 1 < 2 ^ 32 := by
    rw [(hlists idx hidx).edges, List.length_map]
    exact hshort
  have hnext : (if (g.segments p).regionPtrs idx ≠ 0 then
      (g.segments p).getOrder ((g.segments p).regionPtrs idx) + 1 else defaultInitOrder) =
        nextOrder (C idx) := hinv.order_eq_nextOrder
  unfold roomForEdge
  dsimp only
  rcases hinv.hasSpace_or_full hnum with ⟨hroom, hspace⟩ | ⟨hfull, hspace⟩
  · rw [if_pos hspace]
    exact ⟨⟨own, h.open_hole⟩, ⟨rfl, rfl, rfl⟩, hp, hp0, hroom, .refl g⟩
  · rw [if_neg hspace, hnext]
    unfold NoGap at hgap
    dsimp only at hgap
    rw [hnext] at hgap
    rw [alloc_snd, alloc_fst]
    by_cases hfits : Fits width ((g.segments p).allocatedEdgeNum + (3 + 2 ^ nextOrder (C idx)))
        (g.segments p).order
    · rw [if_pos hfits, if_neg (Block.pointer_ne_zero _ _), hinv.region idx]
      have hgrow := hinv.growBlock hfull rfl (hgap hfits) hnum hwidth htrack
      refine Ensures.bind (hgrow.mono (fun _ hq => hq) (fun _ hf => hf.elim)).mapError ?_
      rintro seg' ⟨b, rest, hgrown, hinv', hsame⟩
      have hhead : seg'.head = p := hsame.head.trans (by rw [← hp]; exact h.head s l d (by rw [hp]; exact hp0))
      have hg : (g.setSegment p (bumped (g.segments p) (nextOrder (C idx)))).setSegment p
          (seg'.setRegionPtr idx ((nextBlock (g.segments p) (nextOrder (C idx))).pointer
            (g.segments p).head)) = { g with
          blockManager := g.blockManager
          epochBlocks := g.epochBlocks
          segments := Function.update g.segments p (seg'.setRegionPtr idx
            ((nextBlock (g.segments p) (nextOrder (C idx))).pointer (g.segments p).head)) } := by
        simp only [SegGraph.setSegment, Function.update_idem]
      rw [hg]
      refine ⟨⟨own, h.inSegment hp hp0
        h.bm rfl h.owned (fun _ _ hq => hq) (fun _ _ _ _ _ _ _ => rfl) hhead hsame.order
        ⟨_, hinv', ?_⟩ (fun _ _ _ _ => rfl) (fun v d' hd => h.log_same hd v) ?_ ?_ h.short⟩,
        ⟨rfl, rfl, rfl⟩, hp, hp0, ?_, extends_segment hsame.order hsame.tables⟩
      · intro i hi
        have hl := hlists i hi
        have htab : (seg'.setRegionPtr idx ((nextBlock (g.segments p)
            (nextOrder (C idx))).pointer (g.segments p).head)).epochTables i =
            (g.segments p).epochTables i := congrFun hsame.tables i
        rw [htab]
        by_cases hidx' : i = idx
        · subst hidx'
          rw [Function.update_self]
          exact ⟨hgrown.edges.trans hl.edges, fun hn => absurd ⟨rfl, rfl, Or.inl rfl⟩ hn,
            hl.noTable, hl.table, fun b' rest' heq c hc =>
              hgrown.older hfull hl.older c (by rw [(List.cons.inj heq).2]; exact hc)⟩
        · rw [Function.update_of_ne hidx']
          exact ⟨hl.edges, fun _ => hl.head (fun hf => hf), hl.noTable, hl.table, hl.older⟩
      · exact holeAt_off hidx
      · intro v d' hd
        exact (holeAt_of_same hd).trans (holeAt_of_same (Or.inl rfl)).symm
      · have hroom := hinv'.hasRoom (Function.update_self ..) hgrown.space
        have hptr : b.pointer (seg'.setRegionPtr idx ((nextBlock (g.segments p)
            (nextOrder (C idx))).pointer (g.segments p).head)).head =
            (nextBlock (g.segments p) (nextOrder (C idx))).pointer (g.segments p).head := by
          rw [hgrown.pointer, ← hsame.head]
          rfl
        rw [hptr] at hroom
        simp only [Function.update_self]
        exact hroom
    · rw [if_neg hfits, if_pos rfl]
      exact mergeIntoNewSegment_spec h hp hp0 hidx hborn hexact hwidth htrack

/-! ### The epoch table -/

/-- The graph with a block for the epoch table of a list in the segment at `p`. -/
def withTable (g : SegGraph) (p idx table : Nat) (bm : BlockManager) (block : EpochBlock) :
    SegGraph :=
  { g with
    blockManager := bm
    epochBlocks := Function.update g.epochBlocks table block
    segments := Function.update g.segments p ((g.segments p).setEpochTable idx table) }

theorem extends_withTable {table : Nat} {bm' : BlockManager} {block : EpochBlock}
    (hp : g.locateSegment s l d = p) (hp0 : p ≠ 0) (hidx : idx < vertexPerSeg)
    (hkept : Kept g.blockManager bm' ((g.segments p).epochTables idx)
      (g.epochBlocks ((g.segments p).epochTables idx)).order table block.order) :
    Extends g (withTable g p idx table bm' block) := by
  obtain ⟨new, hheap, hblock⟩ : ∃ new : List MemBlock,
      (∀ capacity live, Heap.Inv capacity ⟨g.blockManager, live⟩ → Heap.Inv capacity ⟨bm', new ++ live⟩) ∧
        (g.Reaches ⟨table, block.order⟩ ∨ (⟨table, block.order⟩ : MemBlock) ∈ new) := by
    rcases hkept with ⟨rfl, hne, rfl, horder⟩ | hhanded
    · refine ⟨[], fun _ _ hinv => hinv, Or.inl ?_⟩
      rw [horder]
      subst hp
      exact .epochs s l d idx hp0 hidx hne
    · exact ⟨[⟨table, block.order⟩], hhanded, Or.inr (List.mem_singleton_self _)⟩
  have hsegs : ∀ x, (Function.update g.segments p ((g.segments p).setEpochTable idx table) x).order =
      (g.segments x).order := by
    intro x
    by_cases hx : x = p
    · rw [hx, Function.update_self]
      rfl
    · rw [Function.update_of_ne hx]
  refine ⟨new, [], hheap, fun b hb => ?_, (List.append_nil _).symm, fun x hx => by cases hx⟩
  cases hb with
  | labels s' hne => exact Or.inl (.labels s' hne)
  | segment s' l' d' hne =>
    have hreach := Reaches.segment (g := g) s' l' d' hne
    rw [← hsegs] at hreach
    exact Or.inl hreach
  | epochs s' l' d' i hne hi ht =>
    change g.locateSegment s' l' d' ≠ 0 at hne
    refine (?_ : ∀ t, t = (Function.update g.segments p ((g.segments p).setEpochTable idx table)
      (g.locateSegment s' l' d')).epochTables i → t ≠ 0 → g.Reaches ⟨t, (Function.update g.epochBlocks table block
        t).order⟩ ∨ (⟨t, (Function.update g.epochBlocks table block t).order⟩ : MemBlock) ∈ new) _ rfl ht
    rintro t heq ht
    by_cases htable : t = table
    · rw [htable, Function.update_self]
      exact hblock
    · rw [Function.update_of_ne htable]
      have hold : t = (g.segments (g.locateSegment s' l' d')).epochTables i := by
        rw [heq]
        by_cases hx : g.locateSegment s' l' d' = p
        · rw [hx, Function.update_self]
          rw [hx, Function.update_self] at heq
          by_cases hi' : i = idx
          · rw [hi'] at heq
            exact absurd (heq.trans (Function.update_self ..)) htable
          · exact Function.update_of_ne hi' _ _
        · rw [Function.update_of_ne hx]
      rw [hold] at ht ⊢
      exact Or.inl (.epochs s' l' d' i hne hi ht)

/-- The epoch table is ready for an entry of epoch `w` behind `entries`. -/
structure TableReady (g g' : SegGraph) (p idx w : Nat) (entries : List LogEntry) : Prop where
  result : ∃ table bm' block, g' = withTable g p idx table bm' block ∧
    Obtained g.blockManager bm' ((g.segments p).epochTables idx) table ∧
    ∀ edge, EpochOk block (entries ++ [{ epoch := w, edge := edge }])

theorem epochHeader_fits : epochHeaderSize + epochEntrySize ≤
    2 ^ sizeToOrder (epochHeaderSize + epochEntrySize) :=
  le_two_pow_sizeToOrder _

theorem initEpochTable_spec {entries : List LogEntry} (hbm : g.blockManager.WellFormed)
    (hnone : entries = [] → (g.segments p).epochTables idx = 0)
    (hsome : entries ≠ [] → (g.segments p).epochTables idx ≠ 0) :
    Ensures (g.initEpochTable w p idx)
      (fun r =>
        (entries = [] ∧ TableReady g r.2 p idx w [] ∧ (r.2.epochBlocks r.1).latestEpoch = w) ∨
        (entries ≠ [] ∧ r = ((g.segments p).epochTables idx, g))) Stop.Exhausted := by
  unfold initEpochTable
  dsimp only
  by_cases hne : entries = []
  · rw [if_neg (by simp [hnone hne])]
    refine Ensures.bind (allocBlock_spec hbm _) ?_
    rintro ⟨t, g1⟩ ⟨bm1, hg1, halloc⟩
    subst hg1
    dsimp only at halloc ⊢
    by_cases ht : t = 0
    · rw [if_pos ht]
      trivial
    · rw [if_neg ht]
      obtain ⟨ha, -⟩ := halloc.resolve_left ht
      refine Or.inl ⟨hne, ⟨t, bm1, _, rfl, Or.inr ha, ?_⟩, ?_⟩
      · intro edge
        exact epochOk_first w _ edge epochHeader_fits
      · simp only [SegGraph.setSegment, SegGraph.setEpochBlock, Function.update_self,
          EpochBlock.append_latestEpoch, EpochBlock.fill]
  · rw [if_pos (hsome hne)]
    exact Or.inr ⟨hne, rfl⟩

theorem EpochBlock.append_order (block : EpochBlock) (entry : EpochEntry) :
    (block.append entry).order = block.order := by
  unfold EpochBlock.append
  split <;> rfl

theorem foldl_append_epochOrder (entries : List EpochEntry) (block : EpochBlock) :
    (entries.foldl EpochBlock.append block).order = block.order := by
  induction entries generalizing block with
  | nil => rfl
  | cons entry entries ih => rw [List.foldl_cons, ih, EpochBlock.append_order]

theorem initEpochTable_extends {r : Nat × SegGraph} (hp : g.locateSegment s l d = p) (hp0 : p ≠ 0)
    (hidx : idx < vertexPerSeg) (h : g.initEpochTable w p idx = .ok r) :
    Extends g r.2 ∧ r.2.locateSegment s l d = p ∧ (r.2.segments p).epochTables idx = r.1 ∧ r.1 ≠ 0 := by
  unfold initEpochTable at h
  dsimp only at h
  split at h
  · rename_i hne
    cases h
    exact ⟨.refl g, hp, rfl, hne⟩
  · obtain ⟨⟨t, g1⟩, halloc, h⟩ := bind_eq_ok h
    dsimp only at h
    split at h
    · cases h
    · rename_i hne
      cases h
      have hhanded := allocBlock_handed halloc hne
      obtain ⟨bm', rfl⟩ : ∃ bm', g1 = { g with blockManager := bm' } := ⟨_, allocBlock_manager halloc⟩
      refine ⟨extends_withTable hp hp0 hidx (Or.inr ?_), hp, ?_, hne⟩
      · rw [EpochBlock.append_order]
        exact hhanded
      · simp [SegGraph.setSegment, SegGraph.setEpochBlock, VegitoSegment.setEpochTable]

theorem openEpoch_extends {g' : SegGraph} {edgeBlock table : Nat} (hp : g.locateSegment s l d = p) (hp0 : p ≠ 0)
    (hidx : idx < vertexPerSeg) (htable : (g.segments p).epochTables idx = table) (ht0 : table ≠ 0)
    (h : g.openEpoch w p idx edgeBlock table = .ok g') : Extends g g' := by
  unfold openEpoch at h
  split at h
  · unfold roomForEpoch at h
    dsimp only at h
    split at h
    · cases h
      have hself : (g.segments p).setEpochTable idx table = g.segments p := by
        rw [← htable]
        simp only [VegitoSegment.setEpochTable, Function.update_eq_self]
      have hext := @extends_withTable g s l idx p d table g.blockManager
        ({ g.epochBlocks table with latestEpoch := w }.append
          { epoch := w
            offset := (g.segments p).getPrevNumEntries edgeBlock + (g.segments p).getNumEntries edgeBlock }) hp hp0 hidx
        (Or.inl ⟨htable.symm, htable ▸ ht0, rfl, by rw [EpochBlock.append_order, htable]⟩)
      unfold withTable at hext
      rw [hself, Function.update_eq_self] at hext
      exact hext
    · rw [bind_assoc] at h
      obtain ⟨⟨t, g1⟩, halloc, h⟩ := bind_eq_ok h
      dsimp only at h
      split at h
      · cases h
      · rename_i hne
        have hhanded := allocBlock_handed halloc hne
        obtain ⟨bm', rfl⟩ : ∃ bm', g1 = { g with blockManager := bm' } := ⟨_, allocBlock_manager halloc⟩
        obtain ⟨block, rfl, horder⟩ : ∃ block, g' = withTable g p idx t bm' block ∧
            block.order = (g.epochBlocks table).order + 1 := by
          refine ⟨g'.epochBlocks t, ?_, ?_⟩
          · cases h
            simp only [withTable, SegGraph.setEpochBlock, SegGraph.setSegment, Function.update_self,
              Function.update_idem]
          · cases h
            simp only [SegGraph.setEpochBlock, SegGraph.setSegment, Function.update_self, EpochBlock.append_order,
              foldl_append_epochOrder]
            rfl
        refine extends_withTable hp hp0 hidx (Or.inr ?_)
        rw [horder]
        exact hhanded
  · cases h
    exact .refl g

/-- The epoch from which an entry put at `w` is seen: the latest one of the list, if that is later. -/
structure SeenFrom (w : Nat) (entries : List LogEntry) (seen : Nat) : Prop where
  le : w ≤ seen
  bounded : ∀ entry ∈ entries, entry.epoch ≤ seen
  attained : seen = w ∨ ∃ entry ∈ entries, entry.epoch = seen

theorem exists_seenFrom (epoch : Nat) (entries : List LogEntry) : ∃ seen, SeenFrom epoch entries seen := by
  induction entries with
  | nil => exact ⟨epoch, Nat.le_refl _, fun entry hentry => (by cases hentry), Or.inl rfl⟩
  | cons entry rest ih =>
    obtain ⟨seen, hle, hbounded, hattained⟩ := ih
    by_cases hlater : entry.epoch ≤ seen
    · refine ⟨seen, hle, List.forall_mem_cons.mpr ⟨hlater, hbounded⟩, hattained.imp_right ?_⟩
      rintro ⟨last, hlast, hepoch⟩
      exact ⟨last, List.mem_cons_of_mem _ hlast, hepoch⟩
    · refine ⟨entry.epoch, by omega, List.forall_mem_cons.mpr ⟨Nat.le_refl _, fun e he => ?_⟩,
        Or.inr ⟨entry, List.mem_cons_self, rfl⟩⟩
      have hbound := hbounded e he
      omega

theorem openEpoch_spec {entries : List LogEntry} {table edgeBlock : Nat}
    (hbm : g.blockManager.WellFormed) (htable : (g.segments p).epochTables idx = table)
    (ht0 : table ≠ 0) (hok : EpochOk (g.epochBlocks table) entries) (hne : entries ≠ [])
    {seen : Nat} (hseen : SeenFrom w entries seen)
    (hend : (g.segments p).getPrevNumEntries edgeBlock + (g.segments p).getNumEntries edgeBlock =
      entries.length) :
    Ensures (g.openEpoch w p idx edgeBlock table)
      (fun g' => TableReady g g' p idx seen entries) Stop.Exhausted := by
  have hself : (g.segments p).setEpochTable idx table = g.segments p := by
    rw [← htable]
    simp only [VegitoSegment.setEpochTable, Function.update_eq_self]
  unfold openEpoch
  by_cases hw : w > (g.epochBlocks table).latestEpoch
  · have hseenW : seen = w := by
      rcases hseen.attained with hw' | ⟨entry, hentry, hepoch⟩
      · exact hw'
      · have hle := hok.bounded entry hentry
        have hge := hseen.le
        omega
    rw [if_pos hw, hseenW]
    unfold roomForEpoch
    dsimp only
    by_cases hspace : (g.epochBlocks table).hasSpace = true
    · rw [if_pos hspace]
      refine ⟨table, g.blockManager, _, ?_, Or.inl ⟨htable.symm, by rw [htable]; exact ht0, rfl⟩,
        fun edge => hok.later_epoch hne hw hspace edge⟩
      simp only [withTable, hself, Function.update_eq_self, SegGraph.setEpochBlock, hend]
    · -- a full table is copied first
      rw [if_neg hspace, grownTable_eq hok.size, bind_assoc]
      refine Ensures.bind (allocBlock_spec hbm _) ?_
      rintro ⟨t, g1⟩ ⟨bm1, hg1, halloc⟩
      subst hg1
      dsimp only at halloc ⊢
      by_cases ht : t = 0
      · rw [if_pos ht]
        trivial
      · rw [if_neg ht]
        obtain ⟨ha, -⟩ := halloc.resolve_left ht
        refine ⟨t, bm1, _, ?_, Or.inr ha,
          fun edge => hok.grown.later_epoch hne hw (grownTable_hasSpace hok.size) edge⟩
        have hend' : ((g.segments p).setEpochTable idx t).getPrevNumEntries edgeBlock +
            ((g.segments p).setEpochTable idx t).getNumEntries edgeBlock = entries.length := hend
        simp only [withTable, SegGraph.setEpochBlock, SegGraph.setSegment, Function.update_self,
          Function.update_idem, hend']
  · rw [if_neg hw]
    have hlatest : (g.epochBlocks table).latestEpoch = seen := by
      obtain ⟨entry, hmem, hep⟩ := hok.attained
      have hge := hseen.bounded entry hmem
      rcases hseen.attained with hw' | ⟨last, hlast, hepoch⟩
      · omega
      · have hle := hok.bounded last hlast
        omega
    refine ⟨table, g.blockManager, g.epochBlocks table, ?_,
      Or.inl ⟨htable.symm, by rw [htable]; exact ht0, rfl⟩, ?_⟩
    · simp only [withTable, hself, Function.update_eq_self]
    · intro edge
      have hsame := hok.same_epoch edge
      rw [hlatest] at hsame
      exact hsame

/-! ### The insertion -/

theorem SegInv.end_of_hasRoom {tracked : Prop} {stride : Nat} {seg : VegitoSegment}
    {C : Nat → List Block} (h : SegInv tracked stride seg C) {edgeBlock : Nat}
    (hroom : HasRoom seg idx edgeBlock) :
    seg.getPrevNumEntries edgeBlock + seg.getNumEntries edgeBlock = (chainEdges (C idx)).length := by
  obtain ⟨b, rest, hC, hptr, -⟩ := h.of_hasRoom hroom
  have hchain := h.chain idx
  rw [hC] at hchain
  rw [hptr, hchain.1.getPrevNumEntries, hchain.1.getNumEntries, hC]
  simp only [chainEdges, List.length_append]

theorem insertEdge_graph {g' : SegGraph} {edgeBlock dst : Nat} {data : Bytes}
    (h : GraphInv tracked stride g own log
      (HoleAt (g.isEdgeUndirected l) (vertexOf s idx) l d))
    (hp : g.locateSegment s l d = p) (hp0 : p ≠ 0) (hidx : idx < vertexPerSeg)
    (hroom : HasRoom (g.segments p) idx edgeBlock)
    (hready : TableReady g g' p idx w (log (vertexOf s idx) l d))
    (hdst : dst < 2 ^ 64) (hwidth : data.length ≤ stride l)
    (htrack : tracked l → data.length = stride l)
    (hshort : (log (vertexOf s idx) l d).length + 1 < 2 ^ 32) :
    Ensures ((g'.segments p).insertEdge edgeBlock dst data)
      (fun seg => ∃ own', GraphInv tracked stride (g'.setSegment p seg) own'
        (appendLog (g.isEdgeUndirected l) log (vertexOf s idx) l d ⟨w, ⟨dst, data⟩⟩) NoHole)
      Never := by
  obtain ⟨C, hinv, hlists⟩ := h.holds s l d (by rw [hp]; exact hp0)
  rw [hp] at hinv hlists
  obtain ⟨t, bm', block, rfl, hob, hok⟩ := hready.result
  obtain ⟨b, rest, hC, hptr, hspace⟩ := hinv.of_hasRoom hroom
  have hlist := hlists idx hidx
  have hlen : (chainEdges (C idx)).length + 1 < 2 ^ 32 := by
    rw [hlist.edges, List.length_map]
    exact hshort
  have hseg : (withTable g p idx t bm' block).segments p = (g.segments p).setEpochTable idx t := by
    simp [withTable]
  have hinsert := (hinv.setEpochTable idx t).insertEdge (e := ⟨dst, data⟩) hC hspace
    hlen hdst hwidth htrack (fun _ => rfl)
  rw [hseg, hptr]
  refine hinsert.imp ?_
  rintro seg' ⟨hinv', hsame⟩
  have hold : (g.segments p).epochTables idx ≠ 0 →
      own ((g.segments p).epochTables idx) = some (.epochs s l (g.canonDir l d) idx) := by
    intro hne
    refine (hlist.table ?_).2.1
    intro hnil
    exact hne (hlist.noTable hnil)
  have hown := h.owned.obtain_eq hob hold
  have hg : (withTable g p idx t bm' block).setSegment p seg' = { g with
      blockManager := bm'
      epochBlocks := Function.update g.epochBlocks t block
      segments := Function.update g.segments p seg' } := by
    simp only [withTable, SegGraph.setSegment, Function.update_idem]
  rw [hg]
  refine ⟨_, h.inSegment hp hp0 (hob.wellFormed h.bm) hob.capacity (h.owned.obtain hob hold)
    (fun _ _ hq => update_own_of_some hown hq) ?_ ?_ hsame.order ⟨_, hinv', ?_⟩ ?_ ?_ ?_
    (fun _ _ _ => Iff.rfl) ?_⟩
  · -- the table belongs to this list
    rintro t' s' l' c' i ht' hne
    refine Function.update_of_ne ?_ _ _
    rintro rfl
    rcases hown with hn | hn
    · rw [hn] at ht'
      exact absurd ht' (by simp)
    · rw [hn] at ht'
      simp only [Option.some.injEq, Owner.epochs.injEq] at ht'
      obtain ⟨rfl, rfl, rfl, rfl⟩ := ht'
      exact hne rfl
  · refine hsame.head.trans ?_
    have hhead := h.head s l d (by rw [hp]; exact hp0)
    rw [hp] at hhead
    exact hhead
  · intro i hi
    have hl := hlists i hi
    have htab : seg'.epochTables i = Function.update (g.segments p).epochTables idx t i :=
      congrFun hsame.tables i
    dsimp only
    rw [htab]
    by_cases hii : i = idx
    · subst hii
      rw [Function.update_self, Function.update_self]
      have hon : appendLog (g.isEdgeUndirected l) log (vertexOf s i) l d ⟨w, ⟨dst, data⟩⟩
          (vertexOf s i) l d = log (vertexOf s i) l d ++ [⟨w, ⟨dst, data⟩⟩] :=
        if_pos ⟨rfl, rfl, Or.inl rfl⟩
      rw [hon]
      refine ⟨?_, ?_, fun hnil => absurd hnil (by simp), fun _ => ⟨?_, Function.update_self .., ?_⟩, ?_⟩
      · have hedges := hl.edges
        rw [hC] at hedges
        simp only [chainEdges, Block.push_edges, List.map_append, ← hedges, List.append_assoc,
          List.map_cons, List.map_nil]
      · intro _ b' rest' heq
        simp only [List.cons.injEq] at heq
        rw [← heq.1]
        simp
      · rcases hob with ⟨rfl, hne, -⟩ | ha
        · exact hne
        · exact Nat.pos_iff_ne_zero.mp ha.pos
      · rw [Function.update_self]
        exact hok _
      · intro b' rest' heq
        rw [← (List.cons.inj heq).2]
        exact hl.older b rest hC
    · rw [Function.update_of_ne hii, Function.update_of_ne hii,
        appendLog_of_not (fun hh => hii (vertexOf_inj hi hidx hh.1).2)]
      have hoff : ¬ HoleAt (g.isEdgeUndirected l) (vertexOf s idx) l d (vertexOf s i) l d :=
        fun hh => hii (vertexOf_inj hi hidx hh.1).2
      -- the table at `t` is none of the other lists'
      have htable : own ((g.segments p).epochTables i) = some (.epochs s l (g.canonDir l d) i) →
          Function.update g.epochBlocks t block ((g.segments p).epochTables i) =
            g.epochBlocks ((g.segments p).epochTables i) := by
        intro ht
        refine Function.update_of_ne ?_ _ _
        intro heq
        rw [heq] at ht
        rcases hown with hn | hn
        · rw [hn] at ht
          exact absurd ht (by simp)
        · rw [hn] at ht
          simp only [Option.some.injEq, Owner.epochs.injEq, true_and] at ht
          exact hii ht.symm
      have hl' := hl.mono (update_own_of_some hown) htable
      exact ⟨hl'.edges, fun _ => hl'.head hoff, hl'.noTable, hl'.table, hl'.older⟩
  · intro v l' d' hoff
    refine appendLog_of_not ?_
    rintro ⟨rfl, rfl, hd⟩
    exact hoff ⟨div_vertexOf hidx, rfl, hd⟩
  · intro v d' hd
    rw [appendLog_of_same hd, appendLog_of_same (Or.inl rfl), h.log_same hd v]
  · intro v l' d' hoff
    exact (holeAt_off hidx v l' d' hoff).symm
  · intro v l' d'
    refine appendLog_length_lt h.short ?_
    intro d1 hd
    rw [h.log_same hd]
    exact hshort

theorem insertEdge_header {seg seg' : VegitoSegment} {edgeBlock dst : Nat} {data : Bytes}
    (h : seg.insertEdge edgeBlock dst data = .ok seg') :
    seg'.order = seg.order ∧ seg'.epochTables = seg.epochTables := by
  have happend : (seg.appendEntry edgeBlock dst).order = seg.order ∧
      (seg.appendEntry edgeBlock dst).epochTables = seg.epochTables := by
    unfold VegitoSegment.appendEntry
    dsimp only
    split <;> exact ⟨rfl, rfl⟩
  unfold VegitoSegment.insertEdge VegitoSegment.appendProperty at h
  dsimp only at h
  split at h
  · obtain ⟨addr, -, h⟩ := bind_eq_ok h
    cases h
    exact happend
  · cases h
    exact happend

/-! ### The whole call -/

theorem SameGraph.trans {g' g'' : SegGraph} (h : SameGraph g g') (h' : SameGraph g' g'') :
    SameGraph g g'' :=
  ⟨h'.vertexId.trans h.vertexId, h'.undirected.trans h.undirected, h'.capacity.trans h.capacity⟩

theorem SameGraph.isEdgeUndirected {g' : SegGraph} (h : SameGraph g g') (l : Nat) :
    g'.isEdgeUndirected l = g.isEdgeUndirected l := by
  unfold SegGraph.isEdgeUndirected
  rw [h.undirected]

theorem putEdge_invalid {src label dst : Nat} {dir : Dir} {data : Bytes} (h : g.vertexId ≤ src) :
    g.putEdge w src label dir dst data = .error .invalidVertexId := by
  unfold putEdge
  rw [if_pos h]

/-- One call of `put_edge`, whatever the epochs: the list of `src` grows by the edge, or there is no room. -/
theorem putEdge_extends {src label dst seen : Nat} {dir : Dir} {data : Bytes}
    (h : GraphInv tracked stride g own log NoHole) (hsrc : src < g.vertexId) (hdst : dst < 2 ^ 64)
    (hexact : stride label ≤ 16382 ∨ data.length = stride label) (hwidth : data.length ≤ stride label)
    (htrack : tracked label → data.length = stride label)
    (hgap : g.locateSegment (src / vertexPerSeg) label dir ≠ 0 →
      NoGap (stride label) data.length
        (g.segments (g.locateSegment (src / vertexPerSeg) label dir)) (src % vertexPerSeg))
    (hseen : SeenFrom w (log src label dir) seen)
    (hshort : (log src label dir).length + 1 < 2 ^ 32) :
    Ensures (g.putEdge w src label dir dst data)
      (fun g' => (∃ own', GraphInv tracked stride g' own'
          (appendLog (g.isEdgeUndirected label) log src label dir ⟨seen, ⟨dst, data⟩⟩) NoHole) ∧
        SameGraph g g' ∧ Extends g g') (Overflows (stride label)) := by
  have hidx : src % vertexPerSeg < vertexPerSeg := Nat.mod_lt _ (by unfold vertexPerSeg; omega)
  have hv := vertexOf_div_mod src
  have hborn : src / vertexPerSeg * vertexPerSeg < g.vertexId := by
    have hle := Nat.div_mul_le_self src vertexPerSeg
    omega
  unfold putEdge
  rw [if_neg (by omega)]
  refine Ensures.bind ((initSegment_spec h hborn hexact hgap).mono (fun _ hq => hq) fun _ => Or.inl) ?_
  rintro ⟨p1, g1⟩ ⟨⟨own1, h1⟩, hs1, hp1, hne1, hgap1, hext1⟩
  dsimp only at h1 hs1 hp1 hne1 hgap1 hext1 ⊢
  have hborn1 : src / vertexPerSeg * vertexPerSeg < g1.vertexId := by
    rw [hs1.vertexId]
    exact hborn
  refine Ensures.bind (roomForEdge_spec h1 hp1 hne1 hidx hborn1 hexact hwidth htrack hgap1
    (by rw [hv]; exact hshort)) ?_
  rintro ⟨p2, edgeBlock, g2⟩ ⟨⟨own2, h2⟩, hs2, hp2, hne2, hroom, hext2⟩
  dsimp only at h2 hs2 hp2 hne2 hroom hext2 ⊢
  rw [← hs2.isEdgeUndirected] at h2
  have hlists := h2.holds (src / vertexPerSeg) label dir (by rw [hp2]; exact hne2)
  rw [hp2] at hlists
  obtain ⟨C, hinv, hlists⟩ := hlists
  have hlist := hlists _ hidx
  have hsame := hs1.trans hs2
  dsimp only at hlist
  rw [hv] at hlist
  refine Ensures.bind (((initEpochTable_spec h2.bm hlist.noTable (fun hne => (hlist.table hne).1)).and_of_ok
    fun _ => initEpochTable_extends hp2 hne2 hidx).mono (fun _ hq => hq) fun _ => Or.inl) ?_
  rintro ⟨table, g3⟩ ⟨htable, hext3, hp3, htab3, ht3⟩
  dsimp only at hext3 hp3 htab3 ht3
  have hready : Ensures (g3.openEpoch w p2 (src % vertexPerSeg) edgeBlock table)
      (fun g' => TableReady g2 g' p2 (src % vertexPerSeg) seen (log src label dir)) Stop.Exhausted := by
    rcases htable with ⟨hnil, hready, hlatest⟩ | ⟨hne, heq⟩
    · unfold openEpoch
      dsimp only at hlatest hready
      have hseenW : seen = w := by
        rcases hseen.attained with hw | ⟨entry, hentry, -⟩
        · exact hw
        · rw [hnil] at hentry
          cases hentry
      rw [if_neg (by omega), hnil, hseenW]
      exact hready
    · simp only [Prod.mk.injEq] at heq
      obtain ⟨rfl, rfl⟩ := heq
      have htab := hlist.table hne
      refine openEpoch_spec h2.bm rfl htab.1 htab.2.2 hne hseen ?_
      rw [hinv.end_of_hasRoom hroom, hlist.edges, List.length_map]
  refine Ensures.bind ((hready.and_of_ok fun _ => openEpoch_extends hp3 hne2 hidx htab3 ht3).mono (fun _ hq => hq)
    fun _ => Or.inl) ?_
  rintro g4 ⟨hready, hext4⟩
  have hsame4 : SameGraph g2 g4 := by
    obtain ⟨t, bm', block, rfl, hob, -⟩ := hready.result
    exact ⟨rfl, rfl, hob.capacity⟩
  have hinsert := insertEdge_graph h2 hp2 hne2 hidx hroom (by rw [hv]; exact hready) hdst hwidth
    htrack (by rw [hv]; exact hshort)
  rw [hv, hsame.isEdgeUndirected] at hinsert
  refine Ensures.bind ((hinsert.and_of_ok fun _ => insertEdge_header).mono (fun _ hq => hq)
    (fun _ hf => hf.elim)).mapError ?_
  rintro seg ⟨⟨own', hgraph⟩, horder, htables⟩
  exact ⟨⟨own', hgraph⟩, hsame.trans ⟨hsame4.vertexId, hsame4.undirected, hsame4.capacity⟩,
    hext1.trans (hext2.trans (hext3.trans (hext4.trans (extends_segment horder htables))))⟩

theorem putEdge_seen {src label dst seen : Nat} {dir : Dir} {data : Bytes}
    (h : GraphInv tracked stride g own log NoHole) (hsrc : src < g.vertexId) (hdst : dst < 2 ^ 64)
    (hexact : stride label ≤ 16382 ∨ data.length = stride label) (hwidth : data.length ≤ stride label)
    (htrack : tracked label → data.length = stride label)
    (hgap : g.locateSegment (src / vertexPerSeg) label dir ≠ 0 →
      NoGap (stride label) data.length
        (g.segments (g.locateSegment (src / vertexPerSeg) label dir)) (src % vertexPerSeg))
    (hseen : SeenFrom w (log src label dir) seen)
    (hshort : (log src label dir).length + 1 < 2 ^ 32) :
    Ensures (g.putEdge w src label dir dst data)
      (fun g' => (∃ own', GraphInv tracked stride g' own'
          (appendLog (g.isEdgeUndirected label) log src label dir ⟨seen, ⟨dst, data⟩⟩) NoHole) ∧
        SameGraph g g') (Overflows (stride label)) :=
  (putEdge_extends h hsrc hdst hexact hwidth htrack hgap hseen hshort).imp fun _ hall => ⟨hall.1, hall.2.1⟩

/-- One call of `put_edge`: the list of `src` grows by the edge at its epoch, or
the block manager is exhausted. -/
theorem putEdge_spec {src label dst : Nat} {dir : Dir} {data : Bytes}
    (h : GraphInv tracked stride g own log NoHole) (hsrc : src < g.vertexId)
    (hdst : dst < 2 ^ 64) (hstride : stride label ≤ 16382) (hwidth : data.length ≤ stride label)
    (htrack : tracked label → data.length = stride label)
    (hgap : g.locateSegment (src / vertexPerSeg) label dir ≠ 0 →
      NoGap (stride label) data.length
        (g.segments (g.locateSegment (src / vertexPerSeg) label dir)) (src % vertexPerSeg))
    (hmono : ∀ entry ∈ log src label dir, entry.epoch ≤ w)
    (hshort : (log src label dir).length + 1 < 2 ^ 32) :
    Ensures (g.putEdge w src label dir dst data)
      (fun g' => (∃ own', GraphInv tracked stride g' own'
          (appendLog (g.isEdgeUndirected label) log src label dir ⟨w, ⟨dst, data⟩⟩) NoHole) ∧
        SameGraph g g') Stop.Exhausted :=
  (putEdge_seen h hsrc hdst (Or.inl hstride) hwidth htrack hgap ⟨Nat.le_refl w, hmono, Or.inl rfl⟩
    hshort).mono (fun _ hq => hq) fun _ hstop => hstop.resolve_right (Nat.not_lt.mpr hstride)

end inv

end Gart.Seggraph
