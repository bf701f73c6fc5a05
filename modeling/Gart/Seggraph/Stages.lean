import Gart.Seggraph.Writer

/-!
# What every stage of put_edge keeps

The stages of `put_edge` change a graph through a few updates only. A property that these keep is kept by a whole
call, also where it returns early.
-/

namespace Gart.Seggraph
open Gart.Outcome

/-- The graph that an early return of `put_edge` leaves. -/
def Stop.Left (P : SegGraph → Prop) (stop : Stop) : Prop := ∀ site g, stop = .allocFailed site g → P g

theorem left_of_ne {P : SegGraph → Prop} {stop : Stop} (h : ∀ site g, stop ≠ .allocFailed site g) : stop.Left P :=
  fun site g heq => absurd heq (h site g)

theorem left_of_allocFailed {P : SegGraph → Prop} {site : AllocSite} {g : SegGraph} (h : P g) :
    (Stop.allocFailed site g).Left P := by
  intro site' g' heq
  cases heq
  exact h

/-- A property that the updates of the stages keep. -/
structure Stable (P : SegGraph → Prop) : Prop where
  blockManager : ∀ g bm, P g → P { g with blockManager := bm }
  segment : ∀ g pointer seg, P g → P (g.setSegment pointer seg)
  epochBlock : ∀ g pointer block, P g → P (g.setEpochBlock pointer block)
  queue : ∀ g queue, P g → P { g with segmentsToRecycle := queue }
  labels : ∀ g segid label dir pointer, P g →
    Ensures (g.updateEdgeLabelBlock segid label dir pointer) P (Stop.Left P)

section stages
variable {P : SegGraph → Prop} {g : SegGraph} {writeEpochId segid label segidx segment edgePropSize src dst order : Nat}
  {dir : Dir}

theorem mapError_fault_left {α : Type} {x : Except Fault α} :
    Ensures (x.mapError Stop.fault) (fun _ => True) (Stop.Left P) := by
  cases x with
  | ok a => trivial
  | error f => exact left_of_ne fun site g h => by cases h

theorem allocBlock_keeps (hbm : ∀ g bm, P g → P { g with blockManager := bm }) (h : P g) :
    Ensures (g.allocBlock order) (fun r => P r.2) (Stop.Left P) := by
  unfold SegGraph.allocBlock
  dsimp only
  split
  · exact left_of_ne fun site g h => by cases h
  · exact hbm _ _ h

theorem updateEdgeLabelBlock_keeps {segmentPointer : Nat}
    (hchange : ∀ entries, SegGraph.rewriteLabelEntry label
        (SegGraph.setLabelPointer (g.isEdgeUndirected label) dir segmentPointer)
        (g.edgeLabelBlocks (g.edgeLabelPtrs segid)).entries = some entries →
      P (g.setEdgeLabelBlock (g.edgeLabelPtrs segid)
          { g.edgeLabelBlocks (g.edgeLabelPtrs segid) with entries := entries }))
    (happend : ∀ block, (g.edgeLabelBlocks (g.edgeLabelPtrs segid)).append
        (SegGraph.setLabelPointer (g.isEdgeUndirected label) dir segmentPointer ⟨label, 0, 0⟩) = some block →
      P (g.setEdgeLabelBlock (g.edgeLabelPtrs segid) block))
    (hreplace : ∀ entries, (entries = [] ∨ entries = (g.edgeLabelBlocks (g.edgeLabelPtrs segid)).entries) →
      Ensures (g.replaceLabelBlock segid entries
        (SegGraph.setLabelPointer (g.isEdgeUndirected label) dir segmentPointer ⟨label, 0, 0⟩)) P (Stop.Left P)) :
    Ensures (g.updateEdgeLabelBlock segid label dir segmentPointer) P (Stop.Left P) := by
  unfold SegGraph.updateEdgeLabelBlock
  dsimp only
  split
  · exact hreplace _ (Or.inl rfl)
  · split
    · exact hchange _ ‹_›
    · split
      · exact happend _ ‹_›
      · exact hreplace _ (Or.inr rfl)

theorem replaceLabelBlock_keeps {entries : List EdgeLabelEntry} {entry : EdgeLabelEntry}
    (hbm : ∀ g bm, P g → P { g with blockManager := bm })
    (hnew : ∀ g pointer order, P g → P { g.setEdgeLabelBlock pointer
        ((entries ++ [entry]).foldl (fun block entry => (block.append entry).getD block)
            { order := order, entries := [] })
      with edgeLabelPtrs := Function.update g.edgeLabelPtrs segid pointer })
    (h : P g) : Ensures (g.replaceLabelBlock segid entries entry) P (Stop.Left P) := by
  unfold SegGraph.replaceLabelBlock
  refine Ensures.bind (allocBlock_keeps hbm h) ?_
  rintro ⟨newPointer, g1⟩ h1
  dsimp only
  split
  · exact left_of_ne fun site g h => by cases h
  · exact hnew g1 newPointer _ h1

theorem updateEdgeLabelBlock_ignored {segmentPointer : Nat} (hbm : ∀ g bm, P g → P { g with blockManager := bm })
    (hblock : ∀ g pointer block, P g → P (g.setEdgeLabelBlock pointer block))
    (hptrs : ∀ g ptrs, P g → P { g with edgeLabelPtrs := ptrs }) (h : P g) :
    Ensures (g.updateEdgeLabelBlock segid label dir segmentPointer) P (Stop.Left P) :=
  updateEdgeLabelBlock_keeps (fun _ _ => hblock _ _ _ h) (fun _ _ => hblock _ _ _ h) fun _ _ =>
    replaceLabelBlock_keeps hbm (fun _ _ _ h => hptrs _ _ (hblock _ _ _ h)) h

variable (hP : Stable P)
include hP

theorem initSegment_keeps (h : P g) :
    Ensures (g.initSegment segid label dir) (fun r => P r.2) (Stop.Left P) := by
  unfold SegGraph.initSegment
  dsimp only
  split
  · exact h
  · refine Ensures.bind (allocBlock_keeps hP.blockManager h) ?_
    rintro ⟨newPointer, g1⟩ h1
    dsimp only
    split
    · exact left_of_allocFailed h1
    · exact Ensures.bind (hP.labels _ _ _ _ _ (hP.segment _ _ _ h1)) fun g2 h2 => h2

theorem mergeIntoNewSegment_keeps (h : P g) :
    Ensures (g.mergeIntoNewSegment writeEpochId segid label dir segidx segment edgePropSize)
      (fun r => P r.2.2) (Stop.Left P) := by
  unfold SegGraph.mergeIntoNewSegment
  dsimp only
  refine Ensures.bind (allocBlock_keeps hP.blockManager h) ?_
  rintro ⟨newPointer, g1⟩ h1
  dsimp only
  split
  · exact left_of_allocFailed h1
  · refine Ensures.bind mapError_fault_left ?_
    rintro ⟨new, edgeBlock⟩ -
    exact Ensures.bind (hP.labels _ _ _ _ _ (hP.queue _ _ (hP.segment _ _ _ h1))) fun g2 h2 => h2

theorem roomForEdge_keeps (h : P g) :
    Ensures (g.roomForEdge writeEpochId segid label dir segidx segment edgePropSize)
      (fun r => P r.2.2) (Stop.Left P) := by
  have hgrow : ∀ (edgeBlock order : Nat) (r : Nat × VegitoSegment),
      Ensures (if r.1 = 0 then
          (g.setSegment segment r.2).mergeIntoNewSegment writeEpochId segid label dir segidx segment edgePropSize
        else do
          let seg ← (r.2.growBlock edgeBlock r.1 order edgePropSize).mapError .fault
          .ok (segment, r.1, (g.setSegment segment r.2).setSegment segment (seg.setRegionPtr segidx r.1)))
        (fun r => P r.2.2) (Stop.Left P) := by
    intro edgeBlock order r
    split
    · exact mergeIntoNewSegment_keeps hP (hP.segment _ _ _ h)
    · exact Ensures.bind mapError_fault_left fun seg _ => hP.segment _ _ _ (hP.segment _ _ _ h)
  unfold SegGraph.roomForEdge
  dsimp only
  split
  · exact h
  · exact hgrow _ _ _

theorem initEpochTable_keeps (h : P g) :
    Ensures (g.initEpochTable writeEpochId segment segidx) (fun r => P r.2) (Stop.Left P) := by
  unfold SegGraph.initEpochTable
  dsimp only
  split
  · exact h
  · refine Ensures.bind (allocBlock_keeps hP.blockManager h) ?_
    rintro ⟨newTable, g1⟩ h1
    dsimp only
    split
    · exact left_of_allocFailed h1
    · exact hP.segment _ _ _ (hP.epochBlock _ _ _ h1)

theorem openEpoch_keeps {edgeBlock table : Nat} (h : P g) :
    Ensures (g.openEpoch writeEpochId segment segidx edgeBlock table) P (Stop.Left P) := by
  have hroom : Ensures (g.roomForEpoch segment segidx table) (fun r => P r.2) (Stop.Left P) := by
    unfold SegGraph.roomForEpoch
    dsimp only
    split
    · exact h
    · refine Ensures.bind (allocBlock_keeps hP.blockManager h) ?_
      rintro ⟨newTable, g1⟩ h1
      dsimp only
      split
      · exact left_of_allocFailed h1
      · exact hP.segment _ _ _ (hP.epochBlock _ _ _ h1)
  unfold SegGraph.openEpoch
  split
  · exact hroom.bind fun r hr => hP.epochBlock _ _ _ hr
  · exact h

theorem putEdge_keeps {data : ByteMemory.Bytes} (h : P g) :
    Ensures (g.putEdge writeEpochId src label dir dst data) P (Stop.Left P) := by
  unfold SegGraph.putEdge
  split
  · exact left_of_ne fun site g h => by cases h
  · dsimp only
    refine Ensures.bind (initSegment_keeps hP h) ?_
    rintro ⟨segment, g1⟩ h1
    refine Ensures.bind (roomForEdge_keeps hP h1) ?_
    rintro ⟨segment', edgeBlock, g2⟩ h2
    refine Ensures.bind (initEpochTable_keeps hP h2) ?_
    rintro ⟨table, g3⟩ h3
    refine Ensures.bind (openEpoch_keeps hP h3) ?_
    intro g4 h4
    exact Ensures.bind mapError_fault_left fun seg _ => hP.segment _ _ _ h4

end stages

end Gart.Seggraph
