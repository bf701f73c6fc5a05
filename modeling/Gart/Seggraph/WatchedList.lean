import Gart.Seggraph.HeldChains

/-!
# What the writer can do to a list that is read

One list is watched while the writer goes on. `Change` says what a step of the writer does to the graph, and the lemmas
behind it what becomes of the blocks that a reader may have found: the label block, the segment and the epoch table of
the list stay where they are, or are replaced and then never written again.
-/

namespace Gart.Seggraph
open Gart.ByteMemory Gart.Outcome SegGraph

structure ReadList where
  v : Nat
  label : Nat
  dir : Dir
  epoch : Nat
  edgePropSize : Nat → Nat

namespace ReadList

def segid (r : ReadList) : Nat := r.v / vertexPerSeg

def segidx (r : ReadList) : Nat := r.v % vertexPerSeg

def stride (r : ReadList) : Nat := r.edgePropSize r.label

def segment (r : ReadList) (g : SegGraph) : Nat := g.locateSegment r.segid r.label r.dir

def epochTable (r : ReadList) (g : SegGraph) : Nat := (g.segments (r.segment g)).epochTables r.segidx

def length (r : ReadList) (g : SegGraph) : Nat :=
  let seg := g.segments (r.segment g)
  let edgeBlock := seg.regionPtrs r.segidx
  if r.segment g = 0 ∨ edgeBlock = 0 then 0 else seg.getPrevNumEntries edgeBlock + seg.getNumEntries edgeBlock

end ReadList

/-- A list with its entries up to the epoch, oldest first. -/
structure Watched extends ReadList where
  snapshot : List LogEntry
  seen : ∀ entry ∈ snapshot, entry.epoch ≤ epoch

def Watched.edges (r : Watched) : List Edge := r.snapshot.map LogEntry.edge

/-! ### Blocks that were replaced -/

def OldLabels (g : SegGraph) (pointer : Nat) : Prop :=
  ¬ g.blockManager.Available pointer ∧ ∀ s, g.edgeLabelPtrs s ≠ pointer

def OldSegment (g : SegGraph) (pointer : Nat) : Prop :=
  ¬ g.blockManager.Available pointer ∧ ∀ s l d, g.locateSegment s l d ≠ pointer

def OldTable (g : SegGraph) (pointer : Nat) : Prop :=
  pointer ≠ 0 ∧ ¬ g.blockManager.Available pointer ∧ ∀ s l d i, g.locateSegment s l d ≠ 0 → i < vertexPerSeg →
    (g.segments (g.locateSegment s l d)).epochTables i ≠ pointer

/-- What a reader sees of a segment that the writer has left. -/
structure SameContent (seg seg' : VegitoSegment) : Prop where
  order : seg'.order = seg.order
  head : seg'.head = seg.head
  regions : seg'.regionPtrs = seg.regionPtrs
  tables : seg'.epochTables = seg.epochTables
  body : seg'.body = seg.body

/-! ### The steps -/

/-- A segment is new, or takes the place of another one. -/
structure SegmentMoved (r : Watched) (g : SegGraph) (s l : Nat) (d : Dir) (p' q : Nat) (bm1 bm2 : BlockManager)
    (block : EdgeLabelBlock) (segs : Nat → VegitoSegment) : Prop where
  inv : ∃ own log hole, GraphInv (fun _ => True) r.edgePropSize g own log hole
  relocation : Relocation g s l d p' q bm1 bm2 block
  others : ∀ x, x ≠ p' → x ≠ g.locateSegment s l d → segs x = g.segments x
  tables : ∀ i, i < vertexPerSeg → (segs p').epochTables i =
    if g.locateSegment s l d = 0 then 0 else (g.segments (g.locateSegment s l d)).epochTables i
  replaced : g.locateSegment s l d ≠ 0 →
    SameContent (g.segments (g.locateSegment s l d)) (segs (g.locateSegment s l d))
  complete : g.locateSegment s l d ≠ 0 → ∃ own log, GraphInv (fun _ => True) r.edgePropSize g own log NoHole

/-- The epoch table of a list gets another block or other entries. -/
structure Retabled (r : Watched) (g : SegGraph) (s l : Nat) (d : Dir) (i t : Nat) (bm' : BlockManager)
    (block : EpochBlock) : Prop where
  located : g.locateSegment s l d ≠ 0
  index : i < vertexPerSeg
  obtained : Obtained g.blockManager bm' ((g.segments (g.locateSegment s l d)).epochTables i) t
  grows : t = (g.segments (g.locateSegment s l d)).epochTables i → (g.epochBlocks t).entries <:+ block.entries
  only : t ≠ (g.segments (g.locateSegment s l d)).epochTables i →
    (g.segments (g.locateSegment s l d)).epochTables i ≠ 0 → ∀ s' l' d' j, g.locateSegment s' l' d' ≠ 0 →
      j < vertexPerSeg → (g.segments (g.locateSegment s' l' d')).epochTables j =
        (g.segments (g.locateSegment s l d)).epochTables i → g.locateSegment s' l' d' = g.locateSegment s l d ∧ j = i
  later : t ≠ (g.segments (g.locateSegment s l d)).epochTables i → g.locateSegment s l d = r.segment g →
    i = r.segidx → r.epochTable g ≠ 0 → r.epoch < (g.epochBlocks (r.epochTable g)).latestEpoch

inductive Change (r : Watched) (g : SegGraph) : SegGraph → Prop
  | same : Change r g g
  | vertex (vertexId segId : Nat) : Change r g { g with vertexId := vertexId, segId := segId }
  | list (s l : Nat) (d : Dir) (i settled : Nat) (seg' : VegitoSegment) (C C' : Nat → List Block) :
      g.locateSegment s l d ≠ 0 →
      SegInv True (r.edgePropSize l) (g.segments (g.locateSegment s l d)) C → SegInv True (r.edgePropSize l) seg' C' →
      ListStep (r.edgePropSize l) (g.segments (g.locateSegment s l d)) C i settled seg' C' →
      (g.locateSegment s l d = r.segment g → l = r.label ∧ (i = r.segidx → r.snapshot.length ≤ settled)) →
      Change r g (g.setSegment (g.locateSegment s l d) seg')
  | table (s l : Nat) (d : Dir) (i t : Nat) (bm' : BlockManager) (block : EpochBlock) :
      Retabled r g s l d i t bm' block → Change r g (withTable g (g.locateSegment s l d) i t bm' block)
  | moved (s l : Nat) (d : Dir) (p' q : Nat) (bm1 bm2 : BlockManager) (block : EdgeLabelBlock)
      (extra : List (Nat × Nat × Nat)) (segs : Nat → VegitoSegment) : SegmentMoved r g s l d p' q bm1 bm2 block segs →
      r.length g ≤ r.length { relocated g s p' q (segs p') bm2 block extra with segments := segs } →
      Change r g { relocated g s p' q (segs p') bm2 block extra with segments := segs }

section change
variable {r : Watched} {g g' : SegGraph} {s l p' q : Nat} {d : Dir} {bm1 bm2 bm' : BlockManager}
  {block : EdgeLabelBlock}
  {extra : List (Nat × Nat × Nat)} {segs : Nat → VegitoSegment}

theorem obtained_shrink {bm bm' : BlockManager} {old pointer : Nat} (h : Obtained bm bm' old pointer) {x : Nat}
    (hx : bm'.Available x) : bm.Available x := by
  rcases h with ⟨-, -, rfl⟩ | ha
  · exact hx
  · exact ha.shrink x hx

theorem obtained_ne {bm bm' : BlockManager} {old pointer x : Nat} (h : Obtained bm bm' old pointer)
    (hx : ¬ bm.Available x) (hold : x ≠ old) : pointer ≠ x := by
  rintro rfl
  rcases h with ⟨heq, -⟩ | ha
  · exact hold heq
  · exact hx ha.was

theorem SegmentMoved.locate (h : SegmentMoved r g s l d p' q bm1 bm2 block segs) (s' l' : Nat) (d' : Dir) :
    SegGraph.locateSegment { relocated g s p' q (segs p') bm2 block extra with segments := segs } s' l' d' =
      if s' = s ∧ l' = l ∧ SameList (g.isEdgeUndirected l) d d' then p' else g.locateSegment s' l' d' := by
  obtain ⟨own, log, hole, hinv⟩ := h.inv
  exact @GraphInv.relocate_locate _ _ _ _ _ _ _ _ _ _ _ (segs p') _ _ _ extra hinv h.relocation s' l' d'

theorem SegmentMoved.shrink (h : SegmentMoved r g s l d p' q bm1 bm2 block segs) {x : Nat} (hx : bm2.Available x) :
    g.blockManager.Available x :=
  h.relocation.alloc.shrink x (obtained_shrink h.relocation.obtained hx)

theorem SegmentMoved.fresh (h : SegmentMoved r g s l d p' q bm1 bm2 block segs) {x : Nat}
    (hx : ¬ g.blockManager.Available x) :
    p' ≠ x ∧ (x ≠ g.edgeLabelPtrs s → q ≠ x) := by
  refine ⟨?_, fun hold => obtained_ne h.relocation.obtained (fun hav => hx (h.relocation.alloc.shrink x hav)) hold⟩
  rintro rfl
  exact hx h.relocation.alloc.was

theorem Change.shrink (h : Change r g g') {x : Nat} (hx : g'.blockManager.Available x) :
    g.blockManager.Available x := by
  cases h with
  | same => exact hx
  | vertex => exact hx
  | list => exact hx
  | table s l d i t bm' block h => exact obtained_shrink h.obtained hx
  | moved s l d p' q bm1 bm2 block extra segs h => exact h.shrink hx

theorem Change.segment_ne (h : Change r g g') (hne : r.segment g ≠ 0) : r.segment g' ≠ 0 := by
  cases h with
  | same => exact hne
  | vertex => exact hne
  | list => exact hne
  | table => exact hne
  | moved s l d p' q bm1 bm2 block extra segs h =>
    unfold ReadList.segment
    rw [h.locate]
    split
    · exact Nat.pos_iff_ne_zero.mp h.relocation.alloc.pos
    · exact hne

/-! ### Labels -/

theorem Change.oldLabels (h : Change r g g') {x : Nat} (hx : OldLabels g x) :
    OldLabels g' x ∧ g'.edgeLabelBlocks x = g.edgeLabelBlocks x := by
  have huse : ¬ g'.blockManager.Available x := fun hav => hx.1 (h.shrink hav)
  cases h with
  | same => exact ⟨hx, rfl⟩
  | vertex => exact ⟨hx, rfl⟩
  | list => exact ⟨hx, rfl⟩
  | table => exact ⟨⟨huse, hx.2⟩, rfl⟩
  | moved s l d p' q bm1 bm2 block extra segs h =>
    have hq : q ≠ x := (h.fresh hx.1).2 fun heq => hx.2 s heq.symm
    refine ⟨⟨huse, fun s' => ?_⟩, Function.update_of_ne hq.symm _ _⟩
    show Function.update g.edgeLabelPtrs s q s' ≠ x
    by_cases hs : s' = s
    · rw [hs, Function.update_self]
      exact hq
    · rw [Function.update_of_ne hs]
      exact hx.2 s'

theorem Change.labels (h : Change r g g') (hne : g.edgeLabelPtrs r.segid ≠ 0)
    (huse : ¬ g.blockManager.Available (g.edgeLabelPtrs r.segid)) :
    g'.edgeLabelPtrs r.segid = g.edgeLabelPtrs r.segid ∨ (OldLabels g' (g.edgeLabelPtrs r.segid) ∧
      g'.edgeLabelBlocks (g.edgeLabelPtrs r.segid) = g.edgeLabelBlocks (g.edgeLabelPtrs r.segid)) := by
  have huse' : ¬ g'.blockManager.Available (g.edgeLabelPtrs r.segid) := fun hav => huse (h.shrink hav)
  cases h with
  | same => exact Or.inl rfl
  | vertex => exact Or.inl rfl
  | list => exact Or.inl rfl
  | table => exact Or.inl rfl
  | moved s l d p' q bm1 bm2 block extra segs h =>
    show Function.update g.edgeLabelPtrs s q r.segid = _ ∨ _
    by_cases hs : r.segid = s
    · subst hs
      rw [Function.update_self]
      by_cases hq : q = g.edgeLabelPtrs r.segid
      · exact Or.inl hq
      · refine Or.inr ⟨⟨huse', fun s' => ?_⟩, Function.update_of_ne (Ne.symm hq) _ _⟩
        show Function.update g.edgeLabelPtrs r.segid q s' ≠ _
        by_cases hs' : s' = r.segid
        · rw [hs', Function.update_self]
          exact hq
        · rw [Function.update_of_ne hs']
          intro heq
          obtain ⟨own, log, hole, hinv⟩ := h.inv
          have hown := hinv.labels s' (by rw [heq]; exact hne)
          rw [heq, hinv.labels r.segid hne] at hown
          exact hs' (Owner.labels.inj (Option.some.inj hown)).symm
    · rw [Function.update_of_ne hs]
      exact Or.inl rfl

/-! ### Segments -/

theorem Change.oldSegment (h : Change r g g') {x : Nat} (hx : OldSegment g x) :
    OldSegment g' x ∧ g'.segments x = g.segments x := by
  have huse : ¬ g'.blockManager.Available x := fun hav => hx.1 (h.shrink hav)
  cases h with
  | same => exact ⟨hx, rfl⟩
  | vertex => exact ⟨hx, rfl⟩
  | list s l d => exact ⟨⟨huse, hx.2⟩, Function.update_of_ne (hx.2 s l d).symm _ _⟩
  | table s l d => exact ⟨⟨huse, hx.2⟩, Function.update_of_ne (hx.2 s l d).symm _ _⟩
  | moved s l d p' q bm1 bm2 block extra segs h =>
    have hp' := (h.fresh hx.1).1
    refine ⟨⟨huse, fun s' l' d' => ?_⟩, h.others x hp'.symm (hx.2 s l d).symm⟩
    rw [h.locate]
    split
    · exact hp'
    · exact hx.2 s' l' d'

theorem Change.segment (h : Change r g g') (hne : r.segment g ≠ 0)
    (huse : ¬ g.blockManager.Available (r.segment g)) :
    (r.segment g' = r.segment g ∧
      (SameContent (g.segments (r.segment g)) { g'.segments (r.segment g) with
          epochTables := (g.segments (r.segment g)).epochTables } ∧
        (g'.segments (r.segment g)).allocatedEdgeNum = (g.segments (r.segment g)).allocatedEdgeNum ∨
      ∃ C C' i settled, SegInv True r.stride (g.segments (r.segment g)) C ∧
        SegInv True r.stride (g'.segments (r.segment g)) C' ∧
        ListStep r.stride (g.segments (r.segment g)) C i settled (g'.segments (r.segment g)) C' ∧
        (i = r.segidx → r.snapshot.length ≤ settled))) ∨
    (OldSegment g' (r.segment g) ∧ SameContent (g.segments (r.segment g)) (g'.segments (r.segment g)) ∧
      ∀ C b rest, SegInv True r.stride (g.segments (r.segment g)) C → C r.segidx = b :: rest → b.edges ≠ []) := by
  have huse' : ¬ g'.blockManager.Available (r.segment g) := fun hav => huse (h.shrink hav)
  have hsame : ∀ x : VegitoSegment, SameContent x { x with epochTables := x.epochTables } := fun x =>
    ⟨rfl, rfl, rfl, rfl, rfl⟩
  cases h with
  | same => exact Or.inl ⟨rfl, Or.inl ⟨hsame _, rfl⟩⟩
  | vertex => exact Or.inl ⟨rfl, Or.inl ⟨hsame _, rfl⟩⟩
  | list s l d i settled seg' C C' _ hinv hinv' hstep hwatched =>
    refine Or.inl ⟨rfl, ?_⟩
    show _ ∨ ∃ C C' i settled, _ ∧ SegInv True r.stride (Function.update g.segments _ seg' _) C' ∧
      ListStep r.stride _ C i settled (Function.update g.segments _ seg' _) C' ∧ _
    by_cases hp : g.locateSegment s l d = r.segment g
    · obtain ⟨rfl, hsettled⟩ := hwatched hp
      rw [hp] at hinv hstep ⊢
      rw [Function.update_self]
      exact Or.inr ⟨C, C', i, settled, hinv, hinv', hstep, hsettled⟩
    · have hkept : (g.setSegment (g.locateSegment s l d) seg').segments (r.segment g) = g.segments (r.segment g) :=
        Function.update_of_ne (Ne.symm hp) _ _
      rw [hkept]
      exact Or.inl ⟨hsame _, rfl⟩
  | table s l d i t bm' block h =>
    refine Or.inl ⟨rfl, Or.inl ?_⟩
    by_cases hp : r.segment g = g.locateSegment s l d
    · have hset : (withTable g (g.locateSegment s l d) i t bm' block).segments (r.segment g) =
          (g.segments (r.segment g)).setEpochTable i t := by
        rw [hp]
        exact Function.update_self ..
      rw [hset]
      exact ⟨⟨rfl, rfl, rfl, rfl, rfl⟩, rfl⟩
    · have hkept : (withTable g (g.locateSegment s l d) i t bm' block).segments (r.segment g) =
          g.segments (r.segment g) := Function.update_of_ne hp _ _
      rw [hkept]
      exact ⟨hsame _, rfl⟩
  | moved s l d p' q bm1 bm2 block extra segs h =>
    have hp' := (h.fresh huse).1
    by_cases hon : r.segid = s ∧ r.label = l ∧ SameList (g.isEdgeUndirected l) d r.dir
    · obtain ⟨own, log, hole, hinv⟩ := h.inv
      have hold : g.locateSegment s l d = r.segment g := by
        obtain ⟨rfl, rfl, hd⟩ := hon
        exact (hinv.locate_same hd r.segid).symm
      have hreplaced := h.replaced (by rw [hold]; exact hne)
      rw [hold] at hreplaced
      have hcomplete : ∀ C b rest, SegInv True r.stride (g.segments (r.segment g)) C → C r.segidx = b :: rest →
          b.edges ≠ [] := by
        intro C b rest hinv' hC
        obtain ⟨own', log', hgraph⟩ := h.complete (by rw [hold]; exact hne)
        obtain ⟨C', hlayout, hlists⟩ := hgraph.holds _ _ _ hne
        exact (hlists _ (Nat.mod_lt _ (by decide))).head (fun hf => hf) b rest (by rw [hlayout.unique hinv']; exact hC)
      refine Or.inr ⟨⟨huse', fun s' l' d' => ?_⟩, hreplaced, hcomplete⟩
      rw [h.locate]
      split
      · exact hp'
      · rename_i hoff
        intro heq
        refine hoff (hinv.locate_inj (by rw [hold]; exact hne) (heq.trans hold.symm))
    · have hsegment : r.segment { relocated g s p' q (segs p') bm2 block extra with segments := segs } =
          r.segment g := by
        unfold ReadList.segment
        rw [h.locate, if_neg hon]
      have hother : r.segment g ≠ g.locateSegment s l d := by
        obtain ⟨own, log, hole, hinv⟩ := h.inv
        intro heq
        exact hon (hinv.locate_inj (by rw [← heq]; exact hne) heq)
      have hkept : segs (r.segment g) = g.segments (r.segment g) := h.others _ hp'.symm hother
      refine Or.inl ⟨hsegment, Or.inl ?_⟩
      show SameContent _ { segs (r.segment g) with epochTables := _ } ∧ (segs (r.segment g)).allocatedEdgeNum = _
      rw [hkept]
      exact ⟨hsame _, rfl⟩

/-! ### Epoch tables -/

theorem Change.oldTable (h : Change r g g') {x : Nat} (hx : OldTable g x) :
    OldTable g' x ∧ g'.epochBlocks x = g.epochBlocks x := by
  obtain ⟨hx0, huse, hnone⟩ := hx
  have huse' : ¬ g'.blockManager.Available x := fun hav => huse (h.shrink hav)
  cases h with
  | same => exact ⟨⟨hx0, huse, hnone⟩, rfl⟩
  | vertex => exact ⟨⟨hx0, huse, hnone⟩, rfl⟩
  | list s l d i settled seg' C C' hne _ _ hstep =>
    refine ⟨⟨hx0, huse', fun s' l' d' j hne' hj => ?_⟩, rfl⟩
    have hold := hnone s' l' d' j hne' hj
    show (Function.update g.segments _ seg' (g.locateSegment s' l' d')).epochTables j ≠ x
    by_cases hp : g.locateSegment s' l' d' = g.locateSegment s l d
    · rw [hp] at hold ⊢
      rw [Function.update_self, hstep.header.2.2]
      exact hold
    · rw [Function.update_of_ne hp]
      exact hold
  | table s l d i t bm' block h =>
    have ht : t ≠ x := obtained_ne h.obtained huse (hnone s l d i h.located h.index).symm
    refine ⟨⟨hx0, huse', fun s' l' d' j hne' hj => ?_⟩, Function.update_of_ne ht.symm _ _⟩
    have hold := hnone s' l' d' j hne' hj
    show (Function.update g.segments _ _ (g.locateSegment s' l' d')).epochTables j ≠ x
    by_cases hp : g.locateSegment s' l' d' = g.locateSegment s l d
    · rw [hp] at hold ⊢
      rw [Function.update_self]
      show Function.update (g.segments _).epochTables i t j ≠ x
      by_cases hji : j = i
      · rw [hji, Function.update_self]
        exact ht
      · rw [Function.update_of_ne hji]
        exact hold
    · rw [Function.update_of_ne hp]
      exact hold
  | moved s l d p' q bm1 bm2 block extra segs h =>
    refine ⟨⟨hx0, huse', fun s' l' d' j hne' hj => ?_⟩, rfl⟩
    show (segs _).epochTables j ≠ x
    rw [h.locate] at hne' ⊢
    by_cases hon : s' = s ∧ l' = l ∧ SameList (g.isEdgeUndirected l) d d'
    · rw [if_pos hon, h.tables j hj]
      split
      · exact hx0.symm
      · exact hnone s l d j ‹_› hj
    · rw [if_neg hon] at hne' ⊢
      by_cases hp' : g.locateSegment s' l' d' = p'
      · rw [hp', h.tables j hj]
        split
        · exact hx0.symm
        · exact hnone s l d j ‹_› hj
      · have hother : g.locateSegment s' l' d' ≠ g.locateSegment s l d := by
          obtain ⟨own, log, hole, hinv⟩ := h.inv
          intro heq
          exact hon (hinv.locate_inj (by rw [← heq]; exact hne') heq)
        rw [h.others _ hp' hother]
        exact hnone s' l' d' j hne' hj

theorem Change.entries_suffix (h : Change r g g') {x : Nat} (huse : ¬ g.blockManager.Available x) :
    (g.epochBlocks x).entries <:+ (g'.epochBlocks x).entries := by
  cases h with
  | same => exact List.suffix_rfl
  | vertex => exact List.suffix_rfl
  | list => exact List.suffix_rfl
  | moved => exact List.suffix_rfl
  | table s l d i t bm' block h =>
    show _ <:+ (Function.update g.epochBlocks t block x).entries
    by_cases ht : t = x
    · subst ht
      rw [Function.update_self]
      refine h.grows ?_
      rcases h.obtained with ⟨heq, -⟩ | ha
      · exact heq
      · exact absurd ha.was huse
    · rw [Function.update_of_ne (Ne.symm ht)]

/-- The table of the list stays, or it was replaced when it had an entry of a later epoch. -/
theorem Change.epochTable (h : Change r g g') (hne : r.segment g ≠ 0)
    (huse : ¬ g.blockManager.Available (r.segment g)) (ht0 : r.epochTable g ≠ 0)
    (htable : ¬ g.blockManager.Available (r.epochTable g)) :
    r.epochTable g' = r.epochTable g ∨ (OldTable g' (r.epochTable g) ∧
      g'.epochBlocks (r.epochTable g) = g.epochBlocks (r.epochTable g) ∧
      r.epoch < (g.epochBlocks (r.epochTable g)).latestEpoch) := by
  have hidx : r.segidx < vertexPerSeg := Nat.mod_lt _ (by decide)
  have huse' : ¬ g'.blockManager.Available (r.epochTable g) := fun hav => htable (h.shrink hav)
  cases h with
  | same => exact Or.inl rfl
  | vertex => exact Or.inl rfl
  | list s l d i settled seg' C C' _ _ _ hstep =>
    refine Or.inl ?_
    show (Function.update g.segments _ seg' (r.segment g)).epochTables r.segidx = _
    by_cases hp : r.segment g = g.locateSegment s l d
    · rw [hp, Function.update_self, hstep.header.2.2, ← hp]
      rfl
    · rw [Function.update_of_ne hp]
      rfl
  | table s l d i t bm' block h =>
    show (Function.update g.segments _ _ (r.segment g)).epochTables r.segidx = _ ∨ _
    by_cases hp : r.segment g = g.locateSegment s l d
    · rw [hp, Function.update_self]
      show Function.update (g.segments _).epochTables i t r.segidx = _ ∨ _
      by_cases hi : r.segidx = i
      · have hold : r.epochTable g = (g.segments (g.locateSegment s l d)).epochTables i := by
          unfold ReadList.epochTable
          rw [hp, hi]
        rw [hi, Function.update_self]
        by_cases ht : t = r.epochTable g
        · exact Or.inl ht
        · have honly := h.only (by rw [← hold]; exact ht) (by rw [← hold]; exact ht0)
          refine Or.inr ⟨⟨ht0, huse', fun s' l' d' j hne' hj => ?_⟩, Function.update_of_ne (Ne.symm ht) _ _,
            h.later (by rw [← hold]; exact ht) hp.symm hi.symm ht0⟩
          show (Function.update g.segments _ _ (g.locateSegment s' l' d')).epochTables j ≠ _
          by_cases hp' : g.locateSegment s' l' d' = g.locateSegment s l d
          · rw [hp', Function.update_self]
            show Function.update (g.segments _).epochTables i t j ≠ _
            by_cases hj' : j = i
            · rw [hj', Function.update_self]
              exact ht
            · rw [Function.update_of_ne hj']
              intro heq
              exact hj' (honly s l d j h.located hj (heq.trans hold)).2
          · rw [Function.update_of_ne hp']
            intro heq
            exact hp' (honly s' l' d' j hne' hj (heq.trans hold)).1
      · rw [Function.update_of_ne hi, ← hp]
        exact Or.inl rfl
    · rw [Function.update_of_ne hp]
      exact Or.inl rfl
  | moved s l d p' q bm1 bm2 block extra segs h =>
    refine Or.inl ?_
    obtain ⟨own, log, hole, hinv⟩ := h.inv
    show (segs _).epochTables r.segidx = _
    unfold ReadList.segment
    rw [h.locate]
    by_cases hon : r.segid = s ∧ r.label = l ∧ SameList (g.isEdgeUndirected l) d r.dir
    · have hold : g.locateSegment s l d = r.segment g := by
        obtain ⟨rfl, rfl, hd⟩ := hon
        exact (hinv.locate_same hd r.segid).symm
      rw [if_pos hon, h.tables _ hidx, hold, if_neg hne]
      rfl
    · have hother : r.segment g ≠ g.locateSegment s l d :=
        fun heq => hon (hinv.locate_inj (by rw [← heq]; exact hne) heq)
      have hkept : segs (g.locateSegment r.segid r.label r.dir) = g.segments (r.segment g) :=
        h.others _ (h.fresh huse).1.symm hother
      rw [if_neg hon, hkept]
      rfl

/-! ### Lengths -/

theorem SegInv.length_eq {stride : Nat} {seg : VegitoSegment} {C : Nat → List Block} (h : SegInv True stride seg C)
    (i : Nat) : (chainEdges (C i)).length = if seg.regionPtrs i = 0 then 0 else
      seg.getPrevNumEntries (seg.regionPtrs i) + seg.getNumEntries (seg.regionPtrs i) := by
  have hregion := h.region i
  have hchain := h.chain i
  cases hC : C i with
  | nil =>
    rw [hC] at hregion
    have hnull : seg.regionPtrs i = 0 := hregion
    rw [if_pos hnull]
    rfl
  | cons b rest =>
    rw [hC] at hregion hchain
    have hnewest : seg.regionPtrs i = b.pointer seg.head := hregion
    rw [hnewest, if_neg (Block.pointer_ne_zero _ _), hchain.1.getPrevNumEntries, hchain.1.getNumEntries]
    exact List.length_append

theorem Watched.length_of_layout {C : Nat → List Block} (hne : r.segment g ≠ 0)
    (h : SegInv True r.stride (g.segments (r.segment g)) C) : r.length g = (chainEdges (C r.segidx)).length := by
  rw [h.length_eq]
  unfold ReadList.length
  simp only [hne, false_or]

theorem Watched.length_congr (hsegment : r.segment g' = r.segment g)
    (hregions : (g'.segments (r.segment g)).regionPtrs = (g.segments (r.segment g)).regionPtrs)
    (hbody : (g'.segments (r.segment g)).body = (g.segments (r.segment g)).body)
    (hhead : (g'.segments (r.segment g)).head = (g.segments (r.segment g)).head) : r.length g' = r.length g := by
  unfold ReadList.length
  simp only [hsegment, VegitoSegment.getPrevNumEntries, VegitoSegment.getNumEntries, VegitoSegment.blockAddr, hregions,
    hbody, hhead]

theorem Change.length_le (h : Change r g g') : r.length g ≤ r.length g' := by
  cases h with
  | same => exact Nat.le_refl _
  | vertex => exact Nat.le_refl _
  | moved s l d p' q bm1 bm2 block extra segs _ hlen => exact hlen
  | list s l d i settled seg' C C' hne hinv hinv' hstep hwatched =>
    by_cases hp : g.locateSegment s l d = r.segment g
    · obtain ⟨rfl, -⟩ := hwatched hp
      rw [hp] at hinv hstep hne ⊢
      have hself : (g.setSegment (r.segment g) seg').segments (r.segment g) = seg' := Function.update_self ..
      rw [Watched.length_of_layout hne hinv, @Watched.length_of_layout r (g.setSegment (r.segment g) seg') C' hne
        (hself.symm ▸ hinv')]
      exact hstep.length_le _
    · have hkept : (g.setSegment (g.locateSegment s l d) seg').segments (r.segment g) = g.segments (r.segment g) :=
        Function.update_of_ne (Ne.symm hp) _ _
      have hlen := @Watched.length_congr r g (g.setSegment (g.locateSegment s l d) seg') rfl (by rw [hkept])
        (by rw [hkept]) (by rw [hkept])
      exact Nat.le_of_eq hlen.symm
  | table s l d i t bm' block h =>
    have hlen : r.length (withTable g (g.locateSegment s l d) i t bm' block) = r.length g := by
      refine Watched.length_congr rfl ?_ ?_ ?_
      all_goals
        unfold withTable
        dsimp only
        by_cases hp : r.segment g = g.locateSegment s l d
        · rw [hp, Function.update_self]
          rfl
        · rw [Function.update_of_ne hp]
    exact Nat.le_of_eq hlen.symm

end change

end Gart.Seggraph
