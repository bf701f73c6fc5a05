import Gart.Seggraph.GraphRun

/-!
# The index of a segment

`SegGraph` keeps two arrays with an element for each segment, `edge_label_ptrs` and `seg_mutexes`, whose
lengths come from the number of vertices that it is made for. The constructor and every segment prepare the
elements of the next segment.
-/

namespace Gart.Seggraph
open Gart.Outcome

/-! ### Vertices and segments -/

/-- The counters of vertices and of segments are the same. -/
structure SameIds (g g' : SegGraph) : Prop where
  vertexId : g'.vertexId = g.vertexId
  segId : g'.segId = g.segId

section ids
variable {g g' g'' : SegGraph} {writeEpochId segid label segidx segment edgePropSize src dst : Nat} {dir : Dir}

theorem SameIds.refl (g : SegGraph) : SameIds g g := ⟨rfl, rfl⟩

theorem sameIds_stable (g : SegGraph) : Stable (SameIds g) where
  blockManager _ _ h := ⟨h.vertexId, h.segId⟩
  segment _ _ _ h := ⟨h.vertexId, h.segId⟩
  epochBlock _ _ _ h := ⟨h.vertexId, h.segId⟩
  queue _ _ h := ⟨h.vertexId, h.segId⟩
  labels _ _ _ _ _ h := updateEdgeLabelBlock_ignored (fun _ _ h => ⟨h.vertexId, h.segId⟩)
    (fun _ _ _ h => ⟨h.vertexId, h.segId⟩) (fun _ _ h => ⟨h.vertexId, h.segId⟩) h

theorem putEdge_ids {data : ByteMemory.Bytes} :
    Ensures (g.putEdge writeEpochId src label dir dst data) (SameIds g) (Stop.Left (SameIds g)) :=
  putEdge_keeps (sameIds_stable g) (SameIds.refl g)

end ids

/-! ### The accesses -/

inductive Access
  | edgeLabelPtrs (i : Nat)
  | segMutexes (i : Nat)
  deriving DecidableEq

/-- `max_seg_id` of a graph that is made for `maxVertexId` vertices (`segment_graph.hpp:65`). -/
def maxSegId (maxVertexId : Nat) : Nat := maxVertexId / vertexPerSeg

/-- The arrays have `max_seg_id` and `max_seg_id + 1` elements. -/
def Access.InArray (maxVertexId : Nat) : Access → Prop
  | edgeLabelPtrs i => i < maxSegId maxVertexId
  | segMutexes i => i < maxSegId maxVertexId + 1

instance (maxVertexId : Nat) (a : Access) : Decidable (a.InArray maxVertexId) := by
  cases a with
  | edgeLabelPtrs i => exact inferInstanceAs (Decidable (i < _))
  | segMutexes i => exact inferInstanceAs (Decidable (i < _))

inductive GraphCall
  | newVertex
  | putEdge (writeEpochId src label : Nat) (dir : Dir) (dst : Nat) (data : ByteMemory.Bytes)
  | getEdges (src label : Nat) (dir : Dir)

namespace SegGraph

def createAccesses : List Access := [.segMutexes 0, .edgeLabelPtrs 0]

/-- What a call accesses: a new vertex that is the first of its segment prepares the next segment, the writer and the
readers take that of their vertex. -/
def accesses (g : SegGraph) : GraphCall → List Access
  | .newVertex =>
    if g.vertexId / vertexPerSeg ≥ g.segId then [.segMutexes (g.segId + 1), .edgeLabelPtrs (g.segId + 1)] else []
  | .putEdge _ src _ _ _ _ =>
    if src ≥ g.vertexId then [] else [.segMutexes (src / vertexPerSeg), .edgeLabelPtrs (src / vertexPerSeg)]
  | .getEdges src _ _ => if src ≥ g.vertexId then [] else [.edgeLabelPtrs (src / vertexPerSeg)]

/-- The graph after a call; `put_edge` also returns at a failed allocation. -/
def afterCall (g : SegGraph) : GraphCall → SegGraph
  | .newVertex => g.newVertex
  | .putEdge writeEpochId src label dir dst data =>
    match g.putEdge writeEpochId src label dir dst data with
    | .ok g' => g'
    | .error (.allocFailed _ g') => g'
    | .error _ => g
  | .getEdges _ _ _ => g

def runAccesses (g : SegGraph) : List GraphCall → List Access
  | [] => []
  | call :: calls => g.accesses call ++ (g.afterCall call).runAccesses calls

end SegGraph

def GraphCall.vertices : GraphCall → Nat
  | newVertex => 1
  | _ => 0

def created (calls : List GraphCall) : Nat := (calls.map GraphCall.vertices).sum

def IndicesInRange (maxVertexId capacity : Nat) (edgeIsUndirected : List Bool) (calls : List GraphCall) : Prop :=
  ∀ a ∈ SegGraph.createAccesses ++ (SegGraph.create capacity edgeIsUndirected).runAccesses calls, a.InArray maxVertexId

section runs
variable {g : SegGraph} {calls : List GraphCall} {call : GraphCall} {a : Access} {maxVertexId m : Nat}

/-- `segId` counts the segments that have a vertex. -/
def SegIdOk (g : SegGraph) : Prop := g.segId = (g.vertexId + (vertexPerSeg - 1)) / vertexPerSeg

theorem afterCall_ids (hcall : call ≠ .newVertex) : SameIds g (g.afterCall call) := by
  cases call with
  | newVertex => exact absurd rfl hcall
  | getEdges => exact SameIds.refl g
  | putEdge writeEpochId src label dir dst data =>
    have hput := @putEdge_ids g writeEpochId label src dst dir data
    show SameIds g (match g.putEdge writeEpochId src label dir dst data with
      | .ok g' => g'
      | .error (.allocFailed _ g') => g'
      | .error _ => g)
    cases hrun : g.putEdge writeEpochId src label dir dst data with
    | ok g' =>
      rw [hrun] at hput
      exact hput
    | error stop =>
      rw [hrun] at hput
      cases stop with
      | allocFailed site g' => exact hput site g' rfl
      | _ => exact SameIds.refl g

theorem newVertex_segId :
    g.newVertex.segId = if g.vertexId / vertexPerSeg ≥ g.segId then g.segId + 1 else g.segId := by
  unfold SegGraph.newVertex
  dsimp only
  split <;> rfl

theorem SegIdOk.newVertex (h : SegIdOk g) : SegIdOk g.newVertex := by
  unfold SegIdOk at h ⊢
  rw [newVertex_vertexId, newVertex_segId]
  by_cases hnext : g.vertexId / vertexPerSeg ≥ g.segId
  · rw [if_pos hnext]
    simp only [vertexPerSeg] at h hnext ⊢
    omega
  · rw [if_neg hnext]
    simp only [vertexPerSeg] at h hnext ⊢
    omega

theorem SegIdOk.afterCall (h : SegIdOk g) (call : GraphCall) : SegIdOk (g.afterCall call) := by
  by_cases hcall : call = .newVertex
  · rw [hcall]
    exact h.newVertex
  · have hsame := afterCall_ids (g := g) hcall
    unfold SegIdOk
    rw [hsame.segId, hsame.vertexId]
    exact h

theorem created_cons : created (call :: calls) = call.vertices + created calls := List.sum_cons

theorem afterCall_vertexId : (g.afterCall call).vertexId = g.vertexId + call.vertices := by
  by_cases hcall : call = .newVertex
  · rw [hcall]
    exact newVertex_vertexId g
  · rw [(afterCall_ids hcall).vertexId]
    cases call with
    | newVertex => exact absurd rfl hcall
    | _ => rfl

theorem createAccesses_inArray : (∀ a ∈ SegGraph.createAccesses, a.InArray maxVertexId) ↔ 0 < maxSegId maxVertexId := by
  constructor
  · intro h
    exact h (.edgeLabelPtrs 0) (List.mem_cons_of_mem _ List.mem_cons_self)
  · intro hpos a ha
    rcases List.mem_cons.mp ha with rfl | ha
    · exact Nat.succ_pos _
    · rw [List.mem_singleton.mp ha]
      exact hpos

theorem accesses_inArray (h : SegIdOk g)
    (hnew : g.vertexId + call.vertices + vertexPerSeg ≤ maxSegId maxVertexId * vertexPerSeg)
    (ha : a ∈ g.accesses call) : a.InArray maxVertexId := by
  unfold SegIdOk at h
  simp only [vertexPerSeg] at h hnew
  cases call with
  | newVertex =>
    change g.vertexId + 1 + 4096 ≤ maxSegId maxVertexId * 4096 at hnew
    unfold SegGraph.accesses at ha
    dsimp only at ha
    by_cases hnext : g.vertexId / vertexPerSeg ≥ g.segId
    · rw [if_pos hnext] at ha
      simp only [vertexPerSeg] at hnext
      rcases List.mem_cons.mp ha with rfl | ha
      · show g.segId + 1 < maxSegId maxVertexId + 1
        omega
      · rw [List.mem_singleton.mp ha]
        show g.segId + 1 < maxSegId maxVertexId
        omega
    · rw [if_neg hnext] at ha
      cases ha
  | putEdge writeEpochId src label dir dst data =>
    unfold SegGraph.accesses at ha
    dsimp only at ha
    by_cases hsrc : src ≥ g.vertexId
    · rw [if_pos hsrc] at ha
      cases ha
    · rw [if_neg hsrc] at ha
      rcases List.mem_cons.mp ha with rfl | ha
      · show src / 4096 < maxSegId maxVertexId + 1
        omega
      · rw [List.mem_singleton.mp ha]
        show src / 4096 < maxSegId maxVertexId
        omega
  | getEdges src label dir =>
    unfold SegGraph.accesses at ha
    dsimp only at ha
    by_cases hsrc : src ≥ g.vertexId
    · rw [if_pos hsrc] at ha
      cases ha
    · rw [if_neg hsrc] at ha
      rw [List.mem_singleton.mp ha]
      show src / 4096 < maxSegId maxVertexId
      omega

theorem runAccesses_inArray (h : SegIdOk g)
    (hroom : g.vertexId + created calls + vertexPerSeg ≤ maxSegId maxVertexId * vertexPerSeg) :
    ∀ a ∈ g.runAccesses calls, a.InArray maxVertexId := by
  induction calls generalizing g with
  | nil =>
    intro a ha
    cases ha
  | cons call calls ih =>
    rw [created_cons] at hroom
    intro a ha
    rcases List.mem_append.mp ha with ha | ha
    · exact accesses_inArray h (by omega) ha
    · refine ih (h.afterCall call) ?_ a ha
      rw [afterCall_vertexId]
      omega

theorem next_mem_runAccesses (h : SegIdOk g) (hle : g.vertexId ≤ m * vertexPerSeg)
    (hlt : m * vertexPerSeg < g.vertexId + created calls) : .edgeLabelPtrs (m + 1) ∈ g.runAccesses calls := by
  induction calls generalizing g with
  | nil =>
    have hnone : created [] = 0 := rfl
    omega
  | cons call calls ih =>
    rw [created_cons] at hlt
    by_cases hat : call = .newVertex ∧ g.vertexId = m * vertexPerSeg
    · obtain ⟨rfl, hvertex⟩ := hat
      refine List.mem_append_left _ ?_
      unfold SegIdOk at h
      simp only [vertexPerSeg] at h hvertex
      have hseg : g.segId = m := by omega
      have hnext : g.vertexId / vertexPerSeg ≥ g.segId := by
        simp only [vertexPerSeg]
        omega
      unfold SegGraph.accesses
      dsimp only
      rw [if_pos hnext, hseg]
      exact List.mem_cons_of_mem _ List.mem_cons_self
    · refine List.mem_append_right _ (ih (h.afterCall call) ?_ ?_)
      · rw [afterCall_vertexId]
        cases call with
        | newVertex =>
          have hne : g.vertexId ≠ m * vertexPerSeg := fun heq => hat ⟨rfl, heq⟩
          have hone : GraphCall.newVertex.vertices = 1 := rfl
          omega
        | _ => exact hle
      · rw [afterCall_vertexId]
        omega

end runs

/-- The indices stay in their arrays if and only if the vertices of the run leave a whole segment free: of the segments
that `edge_label_ptrs` has elements for the last one cannot get a vertex. -/
theorem indicesInRange_iff (maxVertexId capacity : Nat) (edgeIsUndirected : List Bool) (calls : List GraphCall) :
    IndicesInRange maxVertexId capacity edgeIsUndirected calls ↔
      created calls + vertexPerSeg ≤ maxVertexId / vertexPerSeg * vertexPerSeg := by
  have hvertex : (SegGraph.create capacity edgeIsUndirected).vertexId = 0 := rfl
  have hseg : (SegGraph.create capacity edgeIsUndirected).segId = 0 := rfl
  have hsegId : SegIdOk (SegGraph.create capacity edgeIsUndirected) := by
    unfold SegIdOk
    rw [hvertex, hseg]
    decide
  constructor
  · intro h
    have hpos : 0 < maxVertexId / vertexPerSeg :=
      createAccesses_inArray.mp fun a ha => h a (List.mem_append_left _ ha)
    refine Nat.not_lt.mp fun hmany => ?_
    have hnext : .edgeLabelPtrs (maxVertexId / vertexPerSeg - 1 + 1) ∈
        (SegGraph.create capacity edgeIsUndirected).runAccesses calls := by
      refine next_mem_runAccesses hsegId (by rw [hvertex]; exact Nat.zero_le _) ?_
      rw [hvertex, Nat.zero_add, Nat.sub_mul, Nat.one_mul]
      exact Nat.sub_lt_right_of_lt_add (Nat.le_mul_of_pos_left _ hpos) hmany
    have hin : maxVertexId / vertexPerSeg - 1 + 1 < maxVertexId / vertexPerSeg :=
      h _ (List.mem_append_right _ hnext)
    rw [Nat.sub_add_cancel hpos] at hin
    exact Nat.lt_irrefl _ hin
  · intro hroom a ha
    rcases List.mem_append.mp ha with ha | ha
    · refine createAccesses_inArray.mpr ?_ a ha
      refine Nat.pos_of_ne_zero fun hzero => ?_
      unfold maxSegId at hzero
      rw [hzero, Nat.zero_mul] at hroom
      exact absurd (Nat.le_trans (Nat.le_add_left _ _) hroom) (by decide)
    · refine runAccesses_inArray hsegId ?_ a ha
      rw [hvertex, Nat.zero_add]
      exact hroom

/-- A graph for one segment of vertices has no element for the segment that its first vertex prepares. -/
theorem indicesInRange_oneSegment : ¬ IndicesInRange 4096 (2 ^ 30) [] [.newVertex] := by
  intro h
  have hin := h (.edgeLabelPtrs 1) (List.mem_append_right _ (by
    refine List.mem_append_left _ ?_
    exact List.mem_cons_of_mem _ List.mem_cons_self))
  exact absurd hin (by decide)

end Gart.Seggraph
