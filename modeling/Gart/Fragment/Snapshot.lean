import Gart.Fragment.ReadSpec
import Gart.Seggraph.GraphRun

/-!
# Snapshots of a run without deletions

A run puts edges with `EpochGraphWriter`, a new writer for every call. What a
reader gets at an epoch is compared with the calls themselves.
-/

namespace Gart.Fragment
open Gart.ByteMemory Gart.Outcome Gart.Seggraph Gart.Seggraph.SegGraph

/-- A call on one `SegGraph`; `recycle` is the draw of `create_graph_writer`. -/
inductive Call
  | newVertex
  | putEdge (recycle : Bool) (writeEpoch src label : Nat) (dir : Dir) (dst : Nat) (edgeData : Bytes)

namespace Call

def run (g : SegGraph) : Call → Except Stop SegGraph
  | newVertex => .ok g.newVertex
  | putEdge recycle writeEpoch src label dir dst edgeData =>
    (g.createGraphWriter recycle writeEpoch).putEdge writeEpoch src label dir dst edgeData

def writeEpoch : Call → Option Nat
  | newVertex => none
  | putEdge _ writeEpoch _ _ _ _ _ => some writeEpoch

def entryFor (undirected : Nat → Bool) (v l : Nat) (d : Dir) : Call → Option LogEntry
  | newVertex => none
  | putEdge _ writeEpoch src label dir dst edgeData =>
    if v = src ∧ l = label ∧ SameList (undirected label) dir d then
      some { epoch := writeEpoch, edge := { dst := dst, data := edgeData } }
    else none

/-- An edge without a delete flag, and the data size of its label. -/
def WellTyped (edgePropSize : Nat → Nat) : Call → Prop
  | newVertex => True
  | putEdge _ _ _ label _ dst edgeData => dst < deleteFlag ∧ edgeData.length = edgePropSize label

end Call

def runCalls (g : SegGraph) (calls : List Call) : Except Stop SegGraph := calls.foldlM Call.run g

/-- The edge a call puts for `(v, l, d)` at an epoch up to `e`. -/
def Call.edgeUpTo (undirected : Nat → Bool) (e v l : Nat) (d : Dir) : Call → Option (Nat × Bytes)
  | newVertex => none
  | putEdge _ writeEpoch src label dir dst edgeData =>
    if (v = src ∧ l = label ∧ SameList (undirected label) dir d) ∧ writeEpoch ≤ e then
      some (dst, edgeData)
    else none

/-- The edges put for `(v, l, d)` with an epoch up to `e`, oldest first. -/
def putsUpTo (undirected : Nat → Bool) (calls : List Call) (e v l : Nat) (d : Dir) :
    List (Nat × Bytes) :=
  calls.filterMap (Call.edgeUpTo undirected e v l d)

/-! ### The logs of a run -/

def logOf (undirected : Nat → Bool) (calls : List Call) : Log := fun v l d =>
  calls.filterMap (Call.entryFor undirected v l d)

section logs
variable {undirected : Nat → Bool} {calls : List Call} {v l : Nat} {d : Dir}

theorem logOf_newVertex : logOf undirected (calls ++ [.newVertex]) = logOf undirected calls := by
  funext v l d
  simp [logOf, Call.entryFor]

theorem logOf_putEdge {recycle : Bool} {w src label dst : Nat} {dir : Dir} {data : Bytes} :
    logOf undirected (calls ++ [.putEdge recycle w src label dir dst data]) =
      appendLog (undirected label) (logOf undirected calls) src label dir ⟨w, ⟨dst, data⟩⟩ := by
  funext v l d
  simp only [logOf, appendLog, List.filterMap_append, List.filterMap_cons, List.filterMap_nil,
    Call.entryFor]
  by_cases hon : v = src ∧ l = label ∧ SameList (undirected label) dir d
  · simp only [if_pos hon]
  · simp only [if_neg hon, List.append_nil]

theorem putsUpTo_eq (e : Nat) : putsUpTo undirected calls e v l d =
    (upToEpoch e (logOf undirected calls v l d)).map fun entry => (entry.edge.dst, entry.edge.data) := by
  simp only [putsUpTo, logOf, upToEpoch, List.filter_filterMap, List.map_filterMap]
  congr 1
  funext call
  cases call with
  | newVertex => rfl
  | putEdge recycle w src label dir dst data =>
    simp only [Call.edgeUpTo, Call.entryFor]
    by_cases hon : v = src ∧ l = label ∧ SameList (undirected label) dir d
    · by_cases he : w ≤ e
      · simp [hon, he, Option.filter]
      · simp [hon, he, Option.filter]
    · simp [hon]

theorem mem_logOf {entry : LogEntry} (h : entry ∈ logOf undirected calls v l d) :
    entry.epoch ∈ calls.filterMap Call.writeEpoch := by
  obtain ⟨call, hcall, hentry⟩ := List.mem_filterMap.mp h
  refine List.mem_filterMap.mpr ⟨call, hcall, ?_⟩
  cases call with
  | newVertex => simp [Call.entryFor] at hentry
  | putEdge recycle w src label dir dst data =>
    simp only [Call.entryFor] at hentry
    split at hentry
    · rw [← Option.some.inj hentry]
      rfl
    · exact absurd hentry (by simp)

end logs

/-! ### What holds along a run -/

structure RunInv (edgePropSize : Nat → Nat) (capacity : Nat) (undirected : List Bool)
    (calls : List Call) (g : SegGraph) : Prop where
  graph : ∃ own, GraphInv (fun _ => True) edgePropSize g own
    (logOf (fun l => undirected.getD l false) calls) NoHole
  undirected : g.edgeIsUndirected = undirected
  capacity : g.blockManager.capacity = capacity

/-- Stops of a run: the block manager is exhausted, or a vertex does not exist. -/
def RunStop : Stop → Prop
  | .invalidVertexId => True
  | stop => stop.Exhausted

theorem RunStop.of_exhausted {stop : Stop} (h : stop.Exhausted) : RunStop stop := by
  cases stop <;> trivial

variable {edgePropSize : Nat → Nat} {capacity : Nat} {undirected : List Bool}

theorem runInv_create (hcap : capacity ≤ 2 ^ 64) :
    RunInv edgePropSize capacity undirected [] (create capacity undirected) where
  graph := ⟨_, create_inv capacity undirected hcap⟩
  undirected := rfl
  capacity := by simp only [create, BlockManager.create_eq]

theorem RunInv.isEdgeUndirected {calls : List Call} {g : SegGraph}
    (h : RunInv edgePropSize capacity undirected calls g) (l : Nat) :
    g.isEdgeUndirected l = undirected.getD l false := by
  unfold SegGraph.isEdgeUndirected
  rw [h.undirected]

theorem run_step {before : List Call} {call : Call} {g : SegGraph}
    (h : RunInv edgePropSize capacity undirected before g) (hsize : ∀ l, edgePropSize l ≤ 16382)
    (htyped : call.WellTyped edgePropSize)
    (hmono : ((before ++ [call]).filterMap Call.writeEpoch).Pairwise (· ≤ ·))
    (hcount : capacity ≤ 2 ^ 35 ∨
      ∀ v l d, (logOf (fun l => undirected.getD l false) (before ++ [call]) v l d).length < 2 ^ 32) :
    Ensures (call.run g) (RunInv edgePropSize capacity undirected (before ++ [call])) RunStop := by
  obtain ⟨own, hgraph⟩ := h.graph
  cases call with
  | newVertex =>
    refine ⟨⟨own, ?_⟩, ?_, ?_⟩
    · rw [logOf_newVertex]
      exact newVertex_inv hgraph
    · rw [← h.undirected]
      unfold newVertex
      dsimp only
      split <;> rfl
    · rw [← h.capacity]
      unfold newVertex
      dsimp only
      split <;> rfl
  | putEdge recycle w src label dir dst data =>
    obtain ⟨hdst, hdata⟩ := htyped
    obtain ⟨own1, hgraph1⟩ := createGraphWriter_inv hgraph recycle w
    have hsame := createGraphWriter_sameGraph g recycle w
    have hund : (g.createGraphWriter recycle w).isEdgeUndirected label = undirected.getD label false := by
      rw [hsame.isEdgeUndirected, h.isEdgeUndirected]
    by_cases hsrc : src < (g.createGraphWriter recycle w).vertexId
    · have hlatest : ∀ entry ∈ logOf (fun l => undirected.getD l false) before src label dir,
          entry.epoch ≤ w := by
        intro entry hentry
        rw [List.filterMap_append, List.pairwise_append] at hmono
        exact hmono.2.2 _ (mem_logOf hentry) w (by simp [Call.writeEpoch])
      have hshort : (logOf (fun l => undirected.getD l false) before src label dir).length + 1 <
          2 ^ 32 := by
        rcases hcount with hcap | hcount
        · exact hgraph.length_of_capacity (by rw [h.capacity]; exact hcap) src label dir
        · have hlen := hcount src label dir
          rw [logOf_putEdge, appendLog_of_same (Or.inl rfl), if_pos rfl] at hlen
          simpa using hlen
      have hput := putEdge_spec hgraph1 hsrc (hdst.trans (by decide)) (hsize label)
        (Nat.le_of_eq hdata) (fun _ => hdata) (fun _ => by rw [hdata]; exact fun hfits => hfits)
        hlatest hshort
      refine hput.mono ?_ (fun _ => RunStop.of_exhausted)
      rintro g' ⟨⟨own', hgraph'⟩, hsame'⟩
      have hall := hsame.trans hsame'
      refine ⟨⟨own', ?_⟩, hall.undirected.trans h.undirected, hall.capacity.trans h.capacity⟩
      rw [logOf_putEdge, ← hund]
      exact hgraph'
    · have hstop : Call.run g (.putEdge recycle w src label dir dst data) = .error .invalidVertexId :=
        putEdge_invalid (by omega)
      rw [hstop]
      trivial

theorem run_inv {calls : List Call} (hcap : capacity ≤ 2 ^ 64) (hsize : ∀ l, edgePropSize l ≤ 16382)
    (htyped : ∀ call ∈ calls, call.WellTyped edgePropSize)
    (hmono : (calls.filterMap Call.writeEpoch).Pairwise (· ≤ ·))
    (hcount : capacity ≤ 2 ^ 35 ∨
      ∀ v l d, (logOf (fun l => undirected.getD l false) calls v l d).length < 2 ^ 32) :
    Ensures (runCalls (create capacity undirected) calls)
      (RunInv edgePropSize capacity undirected calls) RunStop := by
  refine foldlM_invariant (I := RunInv edgePropSize capacity undirected) (runInv_create hcap) ?_
  intro before call after g hsplit hbefore
  rw [List.nil_append] at hsplit
  have hsub : (before ++ [call]).Sublist calls := by
    rw [← hsplit]
    simp
  refine run_step hbefore hsize (htyped call (by rw [← hsplit]; simp)) ?_ ?_
  · exact hmono.sublist (hsub.filterMap _)
  · refine hcount.imp_right ?_
    intro hcount v l d
    exact Nat.lt_of_le_of_lt (hsub.filterMap _).length_le (hcount v l d)

/-! ### What a reader gets -/

def edgeAt (edges : List Edge) (p : Nat) : Option (Nat × Bytes) :=
  edges[p]?.map fun edge => (edge.dst, edge.data)

theorem reads_eq {edges : List Edge} {positions : List Nat} {values : List (Nat × Bytes)}
    (h : List.Forall₂ (Reads True edges) positions values) :
    values.map some = positions.map (edgeAt edges) := by
  induction h with
  | nil => rfl
  | cons hread _ ih =>
    obtain ⟨edge, hedge, hdst, hdata⟩ := hread
    simp only [List.map_cons, ih, edgeAt, hedge, Option.map_some, ← hdst, ← hdata trivial]

theorem map_edgeAt_range {edges : List Edge} {k : Nat} (hk : k ≤ edges.length) :
    (List.range k).map (edgeAt edges) =
      ((edges.take k).map fun edge => (edge.dst, edge.data)).map some := by
  apply List.ext_getElem
  · simp only [List.length_map, List.length_range, List.length_take]
    omega
  · intro i hi _
    simp only [List.length_map, List.length_range] at hi
    have hlt : i < edges.length := by omega
    simp [edgeAt, hlt]

theorem reads_data {edges : List Edge} {k : Nat} {values : List (Nat × Bytes)}
    (hk : k ≤ edges.length) (hdata : ∀ edge ∈ edges, edge.dst < deleteFlag)
    (h : List.Forall₂ (Reads True edges) (MarkerLog.yields (marksOf edges) k []) values) :
    values = ((edges.take k).map fun edge => (edge.dst, edge.data)).reverse := by
  have hnone : ∀ j, j < k → marksOf edges j = none := by
    intro j hj
    have hlt : j < edges.length := by omega
    have hentry := hdata edges[j] (List.getElem_mem hlt)
    rw [marksOf_getElem (List.getElem?_eq_getElem hlt), if_neg (by omega)]
  rw [MarkerLog.yields_of_none hnone] at h
  have heq := reads_eq h
  rw [List.map_reverse, map_edgeAt_range hk, ← List.map_reverse] at heq
  exact List.map_injective_iff.mpr (Option.some_injective _) heq

theorem logOf_sorted {und : Nat → Bool} {calls : List Call} {v l : Nat} {d : Dir}
    (hmono : (calls.filterMap Call.writeEpoch).Pairwise (· ≤ ·)) :
    (logOf und calls v l d).Pairwise fun a b => a.epoch ≤ b.epoch := by
  have hepoch : ∀ call entry, Call.entryFor und v l d call = some entry →
      call.writeEpoch = some entry.epoch := by
    intro call entry hentry
    cases call with
    | newVertex => exact absurd hentry (by simp [Call.entryFor])
    | putEdge recycle w src label dir dst data =>
      simp only [Call.entryFor] at hentry
      split at hentry
      · rw [← Option.some.inj hentry]
        rfl
      · exact absurd hentry (by simp)
  rw [logOf, List.pairwise_filterMap]
  rw [List.pairwise_filterMap] at hmono
  refine hmono.imp ?_
  intro call call' hle entry hentry entry' hentry'
  exact hle _ (hepoch _ _ hentry) _ (hepoch _ _ hentry')

theorem logOf_data {und : Nat → Bool} {calls : List Call} {v l : Nat} {d : Dir}
    (htyped : ∀ call ∈ calls, call.WellTyped edgePropSize) :
    ∀ entry ∈ logOf und calls v l d, entry.edge.dst < deleteFlag := by
  intro entry hentry
  obtain ⟨call, hcall, heq⟩ := List.mem_filterMap.mp hentry
  have htype := htyped call hcall
  cases call with
  | newVertex => exact absurd heq (by simp [Call.entryFor])
  | putEdge recycle w src label dir dst data =>
    simp only [Call.entryFor] at heq
    split at heq
    · rw [← Option.some.inj heq]
      exact htype.1
    · exact absurd heq (by simp)

theorem runInv_reads {calls : List Call} {g : SegGraph}
    (h : RunInv edgePropSize capacity undirected calls g)
    (htyped : ∀ call ∈ calls, call.WellTyped edgePropSize)
    (hmono : (calls.filterMap Call.writeEpoch).Pairwise (· ≤ ·)) (v l : Nat) (d : Dir) (e : Nat) :
    readAdjList g v l d (edgePropSize l) e =
      .ok (putsUpTo (fun l => undirected.getD l false) calls e v l d).reverse := by
  obtain ⟨own, hgraph⟩ := h.graph
  obtain ⟨values, hvalues, hreads⟩ :=
    (readAdjList_spec hgraph v l d (Nat.le_refl _) (fun _ => rfl) e).exists_ok
  have hlen : (upToEpoch e (logOf (fun l => undirected.getD l false) calls v l d)).length ≤
      ((logOf (fun l => undirected.getD l false) calls v l d).map LogEntry.edge).length := by
    rw [List.length_map]
    exact List.length_filter_le _ _
  have heq := reads_data hlen ?_ hreads
  · rw [hvalues, heq, putsUpTo_eq, ← List.map_take, ← upToEpoch_eq_take (logOf_sorted hmono),
      List.map_map]
    rfl
  · intro edge hedge
    obtain ⟨entry, hentry, rfl⟩ := List.mem_map.mp hedge
    exact logOf_data htyped entry hentry

/-- Whatever the calls did to the blocks, a reader at epoch `e` gets the edges put
for its list up to `e`, newest first, with their data. -/
theorem snapshot_reads {calls : List Call} (hcap : capacity ≤ 2 ^ 64)
    (hsize : ∀ l, edgePropSize l ≤ 16382)
    (htyped : ∀ call ∈ calls, call.WellTyped edgePropSize)
    (hmono : (calls.filterMap Call.writeEpoch).Pairwise (· ≤ ·))
    (hcount : capacity ≤ 2 ^ 35 ∨
      ∀ v l d, (logOf (fun l => undirected.getD l false) calls v l d).length < 2 ^ 32) :
    (∀ g, runCalls (create capacity undirected) calls = .ok g →
      ∀ v l d e, readAdjList g v l d (edgePropSize l) e =
        .ok (putsUpTo (fun l => undirected.getD l false) calls e v l d).reverse) ∧
    ∀ stop, runCalls (create capacity undirected) calls = .error stop → RunStop stop := by
  have hrun := run_inv hcap hsize htyped hmono hcount
  refine ⟨?_, fun stop hstop => hrun.of_error hstop⟩
  intro g hg v l d e
  exact runInv_reads (hrun.of_ok hg) htyped hmono v l d e

/-- Five edges of one vertex over two epochs: the first block is copied once, the
second one, and a chained block takes the last edge. -/
def sampleCalls : List Call :=
  [.newVertex, .putEdge false 1 0 0 .eout 10 [7], .putEdge false 1 0 0 .eout 11 [8],
    .putEdge false 1 0 0 .eout 12 [9], .putEdge false 2 0 0 .eout 13 [10],
    .putEdge true 2 0 0 .eout 14 [11]]

theorem snapshot_reads_sample : ∃ g, runCalls (create (2 ^ 30) [false]) sampleCalls = .ok g ∧
    ∀ v l d e, readAdjList g v l d 1 e =
      .ok (putsUpTo (fun l => [false].getD l false) sampleCalls e v l d).reverse := by
  have hrun := @snapshot_reads (fun _ => 1) (2 ^ 30) [false] sampleCalls
    (Nat.pow_le_pow_right (by decide) (by decide)) (fun _ => Nat.le_of_ble_eq_true rfl)
    (by simp [sampleCalls, Call.WellTyped, deleteFlag]) (by decide)
    (Or.inl (Nat.pow_le_pow_right (by decide) (by decide)))
  have hok : (runCalls (create (2 ^ 30) [false]) sampleCalls).isOk = true := by decide +kernel
  cases hg : runCalls (create (2 ^ 30) [false]) sampleCalls with
  | ok g => exact ⟨g, rfl, hrun.1 g hg⟩
  | error stop =>
    rw [hg] at hok
    exact absurd hok (by simp [Except.isOk, Except.toBool])

/-- Edges of an undirected label lie in one list: a reader of the incoming edges
gets an edge that was put as an outgoing one. -/
theorem undirected_reads_other_direction :
    ∃ g, runCalls (create (2 ^ 30) [true]) [.newVertex, .putEdge false 0 0 0 .eout 5 []] = .ok g ∧
      readAdjList g 0 0 .ein 0 0 = .ok [(5, [])] ∧
      putsUpTo (fun _ => false) [.newVertex, .putEdge false 0 0 0 .eout 5 []] 0 0 0 .ein = [] := by
  have hread : ((runCalls (create (2 ^ 30) [true])
      [.newVertex, .putEdge false 0 0 0 .eout 5 []]).toOption.bind
        fun g => (readAdjList g 0 0 .ein 0 0).toOption) = some [(5, [])] := by decide +kernel
  cases hg : runCalls (create (2 ^ 30) [true]) [.newVertex, .putEdge false 0 0 0 .eout 5 []] with
  | error stop =>
    rw [hg] at hread
    exact absurd hread (by simp [Except.toOption])
  | ok g =>
    rw [hg] at hread
    refine ⟨g, rfl, ?_, by decide⟩
    change (readAdjList g 0 0 .ein 0 0).toOption = some [(5, [])] at hread
    cases hvalues : readAdjList g 0 0 .ein 0 0 with
    | error fault =>
      rw [hvalues] at hread
      exact absurd hread (by simp [Except.toOption])
    | ok values =>
      rw [hvalues] at hread
      rw [Option.some.inj hread]

end Gart.Fragment
