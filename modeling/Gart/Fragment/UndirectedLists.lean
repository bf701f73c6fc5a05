import Gart.Fragment.EdgeIterator
import Gart.Seggraph.Recycling

/-!
# The two directions of an undirected label

Every place that installs a segment pointer writes both directions of an undirected label. A reader finds the same
segment in both, whatever the calls of a run were.
-/

namespace Gart.Fragment
open Gart.ByteMemory Gart.Outcome Gart.Seggraph Gart.Seggraph.SegGraph

def OnePointer (undirected : Nat → Bool) (entries : List EdgeLabelEntry) : Prop :=
  ∀ entry ∈ entries, undirected entry.label = true → entry.pointerOut = entry.pointerIn

section entries
variable {undirected : Nat → Bool} {entries : List EdgeLabelEntry} {label pointer : Nat} {dir : Dir}

theorem OnePointer.append {entry : EdgeLabelEntry} (h : OnePointer undirected entries)
    (hentry : OnePointer undirected [entry]) : OnePointer undirected (entries ++ [entry]) := by
  intro e he
  rcases List.mem_append.mp he with he | he
  · exact h e he
  · exact hentry e he

theorem onePointer_set (entry : EdgeLabelEntry) (hlabel : entry.label = label) :
    OnePointer undirected [setLabelPointer (undirected label) dir pointer entry] := by
  intro e he hund
  rw [List.mem_singleton.mp he] at hund ⊢
  rw [setLabelPointer_label, hlabel] at hund
  unfold setLabelPointer
  rw [if_pos hund]
  rfl

theorem OnePointer.rewrite {entries' : List EdgeLabelEntry} (h : OnePointer undirected entries)
    (hchange : rewriteLabelEntry label (setLabelPointer (undirected label) dir pointer) entries = some entries') :
    OnePointer undirected entries' := by
  induction entries generalizing entries' with
  | nil => cases hchange
  | cons entry rest ih =>
    obtain ⟨hentry, hrest⟩ := List.forall_mem_cons.mp h
    unfold rewriteLabelEntry at hchange
    split at hchange
    · rename_i hlabel
      rw [← Option.some.inj hchange]
      exact List.forall_mem_cons.mpr ⟨onePointer_set entry hlabel _ (List.mem_singleton_self _), hrest⟩
    · obtain ⟨rest', hrest', rfl⟩ := Option.map_eq_some_iff.mp hchange
      exact List.forall_mem_cons.mpr ⟨hentry, ih hrest hrest'⟩

theorem OnePointer.foldl_append {block : EdgeLabelBlock} (hblock : OnePointer undirected block.entries)
    (h : OnePointer undirected entries) :
    OnePointer undirected (entries.foldl (fun block entry => (block.append entry).getD block) block).entries := by
  induction entries generalizing block with
  | nil => exact hblock
  | cons entry rest ih =>
    obtain ⟨hentry, hrest⟩ := List.forall_mem_cons.mp h
    refine ih ?_ hrest
    dsimp only
    unfold EdgeLabelBlock.append
    split
    · exact hblock
    · exact hblock.append fun e he => List.mem_singleton.mp he ▸ hentry

end entries

/-! ### A call -/

/-- All label blocks of a graph, under the directions that it was made with. -/
structure Symmetric (undirected : List Bool) (g : SegGraph) : Prop where
  labels : g.edgeIsUndirected = undirected
  blocks : ∀ pointer, OnePointer g.isEdgeUndirected (g.edgeLabelBlocks pointer).entries

section calls
variable {undirected : List Bool} {g : SegGraph}

theorem Symmetric.setEdgeLabelBlock {pointer : Nat} {block : EdgeLabelBlock} (h : Symmetric undirected g)
    (hblock : OnePointer g.isEdgeUndirected block.entries) :
    Symmetric undirected (g.setEdgeLabelBlock pointer block) := by
  refine ⟨h.labels, fun p => ?_⟩
  change OnePointer g.isEdgeUndirected (Function.update g.edgeLabelBlocks pointer block p).entries
  by_cases hp : p = pointer
  · rw [hp, Function.update_self]
    exact hblock
  · rw [Function.update_of_ne hp]
    exact h.blocks p

theorem symmetric_stable (undirected : List Bool) : Stable (Symmetric undirected) where
  blockManager _ _ h := ⟨h.labels, h.blocks⟩
  segment _ _ _ h := ⟨h.labels, h.blocks⟩
  epochBlock _ _ _ h := ⟨h.labels, h.blocks⟩
  queue _ _ h := ⟨h.labels, h.blocks⟩
  labels g segid label dir pointer h := by
    have hold := h.blocks (g.edgeLabelPtrs segid)
    have hnew : OnePointer g.isEdgeUndirected
        [setLabelPointer (g.isEdgeUndirected label) dir pointer ⟨label, 0, 0⟩] := onePointer_set _ rfl
    refine updateEdgeLabelBlock_keeps (fun entries hchange => h.setEdgeLabelBlock (hold.rewrite hchange))
      (fun block happend => h.setEdgeLabelBlock ?_) fun entries hentries => ?_
    · unfold EdgeLabelBlock.append at happend
      split at happend
      · cases happend
      · rw [← Option.some.inj happend]
        exact hold.append hnew
    · have hentries' : OnePointer g.isEdgeUndirected entries := by
        rcases hentries with rfl | rfl
        · exact fun entry hentry => by cases hentry
        · exact hold
      refine replaceLabelBlock_keeps (fun _ _ h => ⟨h.labels, h.blocks⟩) (fun g1 q order h1 => ?_) h
      have hsame : g1.isEdgeUndirected = g.isEdgeUndirected := by
        funext l
        unfold isEdgeUndirected
        rw [h1.labels, h.labels]
      have hnone : OnePointer g.isEdgeUndirected (EdgeLabelBlock.mk order []).entries := fun entry hentry => by
        cases hentry
      have hblock := OnePointer.foldl_append hnone (hentries'.append hnew)
      rw [← hsame] at hblock
      have hset := @Symmetric.setEdgeLabelBlock _ _ q _ h1 hblock
      rw [hsame] at hset
      exact ⟨hset.labels, hset.blocks⟩

/-- The graph after a call; `put_edge` also returns at a failed allocation. A call that faults (through a null label
block, or outside the buffer) counts as no step. -/
def afterSegCall (g : SegGraph) : SegCall → SegGraph
  | .newVertex => g.newVertex
  | .putEdge writeEpochId src label dir dst edgeData =>
    match g.putEdge writeEpochId src label dir dst.toNat edgeData with
    | .ok g' => g'
    | .error (.allocFailed _ g') => g'
    | .error _ => g
  | .recycleSegments epochId => g.recycleSegments epochId

theorem Symmetric.afterSegCall (h : Symmetric undirected g) (call : SegCall) :
    Symmetric undirected (afterSegCall g call) := by
  cases call with
  | newVertex =>
    unfold Fragment.afterSegCall newVertex
    dsimp only
    split
    · exact ⟨h.labels, h.blocks⟩
    · exact ⟨h.labels, h.blocks⟩
  | recycleSegments epochId => exact ⟨h.labels, h.blocks⟩
  | putEdge w src label dir dst data =>
    have hput := @putEdge_keeps _ g w label src dst.toNat dir (symmetric_stable undirected) data h
    unfold Fragment.afterSegCall
    dsimp only
    cases hrun : g.putEdge w src label dir dst.toNat data with
    | ok g' => exact hput.of_ok hrun
    | error stop =>
      cases stop with
      | allocFailed site g' => exact hput.of_error hrun site g' rfl
      | _ => exact h

theorem Symmetric.locateSegment (h : Symmetric undirected g) {l : Nat} (hund : g.isEdgeUndirected l = true) (s : Nat) :
    Fragment.locateSegment g s l .eout = Fragment.locateSegment g s l .ein := by
  unfold Fragment.locateSegment
  dsimp only
  split
  · rfl
  · cases hfind : (g.edgeLabelBlocks (g.edgeLabelPtrs s)).entries.find? fun entry => entry.label == l with
    | none => rfl
    | some entry =>
      have hmem := List.mem_of_find?_eq_some hfind
      have hlabel := List.find?_some hfind
      rw [beq_iff_eq] at hlabel
      exact h.blocks _ entry hmem (by rw [hlabel]; exact hund)

end calls

/-- After any run, also one with failed allocations, a reader gets the same edges of an undirected label in both
directions. -/
theorem undirected_reads_same {capacity : Nat} {undirected : List Bool} (calls : List SegCall) {l : Nat}
    (hund : undirected.getD l false = true) (v edgePropSize readEpoch : Nat) :
    readAdjList (calls.foldl afterSegCall (create capacity undirected)) v l .eout edgePropSize readEpoch =
      readAdjList (calls.foldl afterSegCall (create capacity undirected)) v l .ein edgePropSize readEpoch := by
  have hsym : Symmetric undirected (calls.foldl afterSegCall (create capacity undirected)) :=
    Steps.inv_of_step (Symmetric undirected) (fun _ call h => h.afterSegCall call)
      ⟨rfl, fun pointer entry hentry => by cases hentry⟩ calls
  have hlocate := hsym.locateSegment (l := l) (by unfold isEdgeUndirected; rw [hsym.labels]; exact hund)
  unfold readAdjList getAdjList
  rw [hlocate]

/-- The first edge comes in against the direction of the reader. -/
theorem undirected_reads_same_first :
    readAdjList
        ([SegCall.newVertex, .putEdge 1 0 0 .ein 5 [7]].foldl afterSegCall (create (2 ^ 22) [true])) 0 0 .eout 1 1 =
      readAdjList
          ([SegCall.newVertex, .putEdge 1 0 0 .ein 5 [7]].foldl afterSegCall (create (2 ^ 22) [true])) 0 0 .ein 1 1 :=
  undirected_reads_same _ (by decide) 0 1 1

end Gart.Fragment
