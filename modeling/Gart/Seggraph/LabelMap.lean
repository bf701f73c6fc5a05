import Gart.Seggraph.LabelBlock

/-!
# The edge-label block of a segment of vertices over a run

`locate_segment` answers from the entries of the block as a map would: with the
pointer that was set last for the label and the direction, wherever the block
has moved to in between.
-/

namespace Gart.Seggraph
open Gart.Outcome SegGraph

/-- A call of `update_edge_label_block` on one segment of vertices. -/
structure LabelCall where
  label : Nat
  dir : Dir
  segmentPointer : Nat

/-- The call is about this label and direction, or about the label and the label is undirected. -/
def LabelCall.Sets (undirected : Nat → Bool) (call : LabelCall) (label : Nat) (dir : Dir) : Prop :=
  label = call.label ∧ SameList (undirected call.label) call.dir dir

instance (undirected : Nat → Bool) (call : LabelCall) (label : Nat) (dir : Dir) :
    Decidable (call.Sets undirected label dir) :=
  inferInstanceAs (Decidable (_ ∧ _))

/-- The pointer that was set last for a label and a direction; null if none was. -/
def lastSet (undirected : Nat → Bool) (calls : List LabelCall) (label : Nat) (dir : Dir) : Nat :=
  match calls.reverse.find? fun call => call.Sets undirected label dir with
  | some call => call.segmentPointer
  | none => 0

theorem lastSet_append (undirected : Nat → Bool) (calls : List LabelCall) (call : LabelCall)
    (label : Nat) (dir : Dir) : lastSet undirected (calls ++ [call]) label dir =
      if call.Sets undirected label dir then call.segmentPointer
      else lastSet undirected calls label dir := by
  unfold lastSet
  rw [List.reverse_append, List.reverse_singleton, List.singleton_append, List.find?_cons]
  by_cases hsets : call.Sets undirected label dir
  · rw [if_pos hsets, decide_eq_true hsets]
  · rw [if_neg hsets, decide_eq_false hsets]

namespace SegGraph

/-- The calls on the segment of vertices `segid`, in their order. -/
def updateEdgeLabelBlocks (g : SegGraph) (segid : Nat) (calls : List LabelCall) : Except Stop SegGraph :=
  calls.foldlM (fun g call => g.updateEdgeLabelBlock segid call.label call.dir call.segmentPointer) g

/-- After some calls the block holds the map, and nothing but the blocks has changed. -/
structure LabelsAfter (g : SegGraph) (segid : Nat) (calls : List LabelCall) (g' : SegGraph) : Prop where
  manager : g'.blockManager.WellFormed
  undirected : g'.edgeIsUndirected = g.edgeIsUndirected
  located : ∀ label dir, g'.locateSegment segid label dir = lastSet g.isEdgeUndirected calls label dir

section run
variable {g g1 : SegGraph} {segid : Nat} {past : List LabelCall}

theorem locateSegment_relabeled {q : Nat} {bm : BlockManager} {block : EdgeLabelBlock} (hq : q ≠ 0)
    (label : Nat) (dir : Dir) :
    ({ g with
      blockManager := bm
      edgeLabelPtrs := Function.update g.edgeLabelPtrs segid q
      edgeLabelBlocks := Function.update g.edgeLabelBlocks q block } : SegGraph).locateSegment segid label dir =
      entriesPointer block.entries label dir := by
  rw [locateSegment_of_block (Function.update_self ..) hq]
  simp only [Function.update_self]

theorem Obtained.ne_zero {bm bm' : BlockManager} {old pointer : Nat} (h : Obtained bm bm' old pointer) :
    pointer ≠ 0 := by
  rcases h with ⟨rfl, hne, -⟩ | halloc
  · exact hne
  · exact Nat.pos_iff_ne_zero.mp halloc.pos

theorem LabelsAfter.step (h : LabelsAfter g segid past g1) (call : LabelCall) :
    Ensures (g1.updateEdgeLabelBlock segid call.label call.dir call.segmentPointer)
      (LabelsAfter g segid (past ++ [call])) Stop.Exhausted := by
  have hflags : ∀ label, g1.isEdgeUndirected label = g.isEdgeUndirected label := by
    intro label
    unfold isEdgeUndirected
    rw [h.undirected]
  refine (updateEdgeLabelBlock_spec h.manager segid call.label call.dir call.segmentPointer).imp ?_
  rintro g2 ⟨q, bm, block, rfl, hobtained, hentries⟩
  refine ⟨hobtained.wellFormed h.manager, h.undirected, ?_⟩
  intro label dir
  rw [locateSegment_relabeled hobtained.ne_zero, hentries, hflags, h.located, lastSet_append]
  rfl

/-- For every sequence of calls on a segment of vertices without a block yet, unless the block manager
runs out of space, each pair of a label and a direction leads to the pointer set last for it. -/
theorem locateSegment_lastSet (hbm : g.blockManager.WellFormed) (hnone : g.edgeLabelPtrs segid = 0)
    (calls : List LabelCall) :
    Ensures (g.updateEdgeLabelBlocks segid calls)
      (fun g' => ∀ label dir, g'.locateSegment segid label dir = lastSet g.isEdgeUndirected calls label dir)
      Stop.Exhausted := by
  have hstart : LabelsAfter g segid [] g :=
    ⟨hbm, rfl, fun label dir => locateSegment_of_null hnone label dir⟩
  have hrun : Ensures (g.updateEdgeLabelBlocks segid calls) (LabelsAfter g segid ([] ++ calls)) Stop.Exhausted :=
    foldlM_invariant hstart fun before call after g1 _ h => h.step call
  exact hrun.imp fun g' h => h.located

/-- Two labels, the second one undirected; the block is replaced when the second one comes. -/
def twoLabels : List LabelCall :=
  [⟨0, .eout, 8⟩, ⟨1, .ein, 16⟩, ⟨0, .ein, 24⟩, ⟨1, .eout, 32⟩, ⟨0, .eout, 40⟩]

theorem locateSegment_lastSet_twoLabels :
    Ensures ((create (2 ^ 21) [false, true]).updateEdgeLabelBlocks 0 twoLabels)
      (fun g' => ∀ label dir, g'.locateSegment 0 label dir =
        lastSet (create (2 ^ 21) [false, true]).isEdgeUndirected twoLabels label dir)
      Stop.Exhausted :=
  locateSegment_lastSet (by simp only [create]; exact BlockManager.create_wellFormed _) rfl twoLabels

example : ((create (2 ^ 21) [false, true]).updateEdgeLabelBlocks 0 twoLabels).toOption.map
    (fun g => [g.locateSegment 0 0 .eout, g.locateSegment 0 0 .ein, g.locateSegment 0 1 .eout,
      g.locateSegment 0 1 .ein, g.locateSegment 0 2 .eout]) = some [40, 24, 32, 32, 0] := by
  decide +kernel

end run

end SegGraph

end Gart.Seggraph
