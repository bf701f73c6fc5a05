import Gart.Fragment.ListContent
import Gart.Seggraph.OtherSegments
import Gart.Store.Deletion

/-!
# Graphs whose lists hold markers

Edges and markers are put into a list by the same call, with data that need not have one size. `PutFits` says when a
call leaves the slots of its label whole.
-/

namespace Gart.Store
open Gart.ByteMemory Gart.Outcome Gart.Fragment Gart.Seggraph Gart.Seggraph.SegGraph

/-- The data of a call has the size of the slots of its label; or it is smaller, a merge has room for the slots, and
the segment has no place that only the smaller size fits into. -/
def PutFits (slot : Nat → Nat) (g : SegGraph) (v label : Nat) (dir : Dir) (size : Nat) : Prop :=
  size = slot label ∨ size ≤ slot label ∧ slot label ≤ 16382 ∧
    (g.locateSegment (v / vertexPerSeg) label dir ≠ 0 →
      NoGap (slot label) size (g.segments (g.locateSegment (v / vertexPerSeg) label dir)) (v % vertexPerSeg))

instance (slot : Nat → Nat) (g : SegGraph) (v label : Nat) (dir : Dir) (size : Nat) :
    Decidable (PutFits slot g v label dir size) := inferInstanceAs (Decidable (_ ∨ _ ∧ _ ∧ (_ → _)))

/-- A graph with the logs of its lists; the properties of a tracked label have the size of its slots. -/
structure ListGraph (tracked : Nat → Prop) (slot : Nat → Nat) (undirected : Nat → Bool) (small : Prop) (g : SegGraph)
    (log : Log) : Prop where
  graph : ∃ own, GraphInv tracked slot g own log NoHole
  undirected : ∀ l, g.isEdgeUndirected l = undirected l
  small : small → g.blockManager.capacity ≤ 2 ^ 35

section graph
variable {tracked : Nat → Prop} {slot : Nat → Nat} {undirected : Nat → Bool} {small : Prop} {g g' : SegGraph}
  {log : Log}
  {epoch v label dst size seen : Nat} {dir : Dir} {data : Bytes} {searched : Nat → Bool}

theorem ListGraph.newVertex (h : ListGraph tracked slot undirected small g log) :
    ListGraph tracked slot undirected small g.newVertex log := by
  obtain ⟨own, hgraph⟩ := h.graph
  refine ⟨⟨own, newVertex_inv hgraph⟩, fun l => ?_, fun hsmall => ?_⟩
  · rw [newVertex_isEdgeUndirected]
    exact h.undirected l
  · rw [newVertex_capacity]
    exact h.small hsmall

theorem ListGraph.writer (h : ListGraph tracked slot undirected small g log) (recycle : Bool) (epoch : Nat) :
    ListGraph tracked slot undirected small (g.createGraphWriter recycle epoch) log := by
  obtain ⟨own, hgraph⟩ := h.graph
  have hsame := createGraphWriter_sameGraph g recycle epoch
  refine ⟨createGraphWriter_inv hgraph recycle epoch, fun l => ?_, fun hsmall => ?_⟩
  · rw [hsame.isEdgeUndirected]
    exact h.undirected l
  · rw [hsame.capacity]
    exact h.small hsmall

theorem putFits_writer (recycle : Bool) :
    PutFits slot (g.createGraphWriter recycle epoch) v label dir size ↔ PutFits slot g v label dir size := by
  unfold SegGraph.createGraphWriter
  split <;> exact Iff.rfl

theorem PutFits.width (h : PutFits slot g v label dir size) : size ≤ slot label := h.elim Nat.le_of_eq And.left

theorem PutFits.elsewhere {s l : Nat} {d : Dir} (h : PutFits slot g v label dir size) (helse : Elsewhere s l d g g')
    (hother : ¬ (v / vertexPerSeg = s ∧ label = l ∧ SameList (g.isEdgeUndirected l) d dir)) :
    PutFits slot g' v label dir size := by
  refine h.imp_right fun hless => ⟨hless.1, hless.2.1, fun hne => ?_⟩
  have hlocate := helse.locate _ _ _ hother
  rw [hlocate] at hne ⊢
  rw [helse.segment _ _ _ hother hne]
  exact hless.2.2 hne

/-- A call puts an entry at the end of its list and leaves the segments of other lists alone. -/
theorem ListGraph.putEdge (h : ListGraph tracked slot undirected small g log)
    (hfits : PutFits slot g v label dir data.length) (htrack : tracked label → data.length = slot label)
    (hdst : dst < 2 ^ 64) (hseen : SeenFrom epoch (log v label dir) seen)
    (hroom : small ∨ (log v label dir).length + 1 < 2 ^ 32) (hput : g.putEdge epoch v label dir dst data = .ok g') :
    ListGraph tracked slot undirected small g' (appendLog (undirected label) log v label dir ⟨seen, ⟨dst, data⟩⟩) ∧
      Elsewhere (v / vertexPerSeg) label dir g g' ∧ v < g.vertexId := by
  obtain ⟨own, hgraph⟩ := h.graph
  have hv : v < g.vertexId := by
    by_contra hnot
    rw [putEdge_invalid (Nat.not_lt.mp hnot)] at hput
    cases hput
  have hshort : (log v label dir).length + 1 < 2 ^ 32 := by
    rcases hroom with hsmall | hcount
    · exact hgraph.length_of_capacity (h.small hsmall) v label dir
    · exact hcount
  have hexact : slot label ≤ 16382 ∨ data.length = slot label := hfits.symm.imp_left fun hless => hless.2.1
  have hgap : g.locateSegment (v / vertexPerSeg) label dir ≠ 0 → NoGap (slot label) data.length
      (g.segments (g.locateSegment (v / vertexPerSeg) label dir)) (v % vertexPerSeg) := by
    intro hne
    rcases hfits with heq | hless
    · rw [heq]
      exact fun hfits => hfits
    · exact hless.2.2 hne
  obtain ⟨hgraph', hsame⟩ := (putEdge_seen hgraph hv hdst hexact hfits.width htrack hgap hseen hshort).of_ok hput
  rw [h.undirected] at hgraph'
  refine ⟨⟨hgraph', fun l => ?_, fun hsmall => ?_⟩,
    putEdge_elsewhere hgraph hv hexact hfits.width htrack hgap hshort hput, hv⟩
  · rw [hsame.isEdgeUndirected]
    exact h.undirected l
  · rw [hsame.capacity]
    exact h.small hsmall

theorem findEntry_log {own : Nat → Option Owner} {found : Option Nat}
    (h : GraphInv tracked slot g own log NoHole) (h0 : g.locateSegment (v / vertexPerSeg) label dir ≠ 0)
    (hfound : (g.segments (g.locateSegment (v / vertexPerSeg) label dir)).findEntry searched
      ((g.segments (g.locateSegment (v / vertexPerSeg) label dir)).regionPtrs (v % vertexPerSeg)) = .ok found) :
    found = newest searched ((log v label dir).map LogEntry.edge) (log v label dir).length := by
  obtain ⟨C, hinv, hlists⟩ := h.holds _ _ _ h0
  have hlist := hlists (v % vertexPerSeg) (Nat.mod_lt _ (by decide))
  dsimp only at hlist
  rw [vertexOf_div_mod] at hlist
  rw [hinv.region (v % vertexPerSeg)] at hfound
  by_cases hnil : C (v % vertexPerSeg) = []
  · rw [hnil] at hfound
    cases hfound
  · rw [findEntry_spec (hinv.chain (v % vertexPerSeg)) hnil, hlist.edges, List.length_map] at hfound
    exact (Except.ok.inj hfound).symm

/-- A deletion finds nothing and leaves the graph, or puts a marker for the newest entry that it searches. -/
theorem deleteEntry_cases {own : Nat → Option Owner} (h : GraphInv tracked slot g own log NoHole)
    (hok : g.deleteEntry epoch v label dir searched data = .ok g') :
    newest searched ((log v label dir).map LogEntry.edge) (log v label dir).length = none ∧ g' = g ∨
      ∃ loc, newest searched ((log v label dir).map LogEntry.edge) (log v label dir).length = some loc ∧
        g.putEdge epoch v label dir (loc ||| deleteFlag) data = .ok g' := by
  unfold SegGraph.deleteEntry at hok
  dsimp only at hok
  split at hok
  · cases hok
  · rename_i h0
    obtain ⟨found, hfound, hok⟩ := bind_eq_ok hok
    have hfind : (g.segments (g.locateSegment (v / vertexPerSeg) label dir)).findEntry searched
        ((g.segments (g.locateSegment (v / vertexPerSeg) label dir)).regionPtrs (v % vertexPerSeg)) = .ok found := by
      revert hfound
      generalize VegitoSegment.findEntry _ _ _ = result
      intro hfound
      cases result with
      | error f => cases hfound
      | ok a => rw [Except.ok.inj hfound]
    rw [← findEntry_log h h0 hfind]
    cases found with
    | none => exact Or.inl ⟨rfl, (Except.ok.inj hok).symm⟩
    | some loc => exact Or.inr ⟨loc, rfl, hok⟩

/-- The edges that a deletion of a vertex collects are those that a reader of the list stops at. -/
theorem edgesToDelete_spec {own : Nat → Option Owner} (h : GraphInv tracked slot g own log NoHole) :
    g.edgesToDelete v label dir = .ok (liveEdges ((log v label dir).map LogEntry.edge)) := by
  have hidx : v % vertexPerSeg < vertexPerSeg := Nat.mod_lt _ (by decide)
  unfold SegGraph.edgesToDelete
  dsimp only
  by_cases h0 : g.locateSegment (v / vertexPerSeg) label dir = 0
  · have hnil := h.absent _ _ _ h0 _ hidx
    rw [vertexOf_div_mod] at hnil
    rw [if_pos h0, hnil]
    rfl
  · obtain ⟨C, hinv, hlists⟩ := h.holds _ _ _ h0
    have hlist := hlists _ hidx
    dsimp only at hlist
    rw [vertexOf_div_mod] at hlist
    rw [if_neg h0, hinv.region (v % vertexPerSeg)]
    by_cases hnil : log v label dir = []
    · rw [if_pos (Or.inr (hlist.noTable hnil)), hnil]
      rfl
    · have hchain : C (v % vertexPerSeg) ≠ [] := by
        intro hempty
        have hedges := hlist.edges
        rw [hempty] at hedges
        exact hnil (List.map_eq_nil_iff.mp hedges.symm)
      rw [if_neg fun hnull => hnull.elim (fun hptr => hchain (chainPtr_eq_zero.mp hptr)) (hlist.table hnil).1,
        findEdges_spec (hinv.chain (v % vertexPerSeg)), hlist.edges]
      rfl

end graph

end Gart.Store
