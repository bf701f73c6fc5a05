import Mathlib.Logic.Relation
import Gart.Seggraph.GraphRun

/-!
# put_edge store by store (seggraph/epoch_graph_writer.cpp)

Readers take no lock. What `put_edge` prepares in a block that no pointer leads to cannot be seen, so a step of the
writer ends at the store that shows the block, the entry or the count. The data of an edge is written behind its entry
is counted, and is a step of its own.
-/

namespace Gart.Seggraph
open Gart.ByteMemory Gart.Outcome SegGraph

/-- The arguments of `put_edge`, with the epoch of the writer. -/
structure PutCall where
  writeEpochId : Nat
  src : Nat
  label : Nat
  dir : Dir
  dst : Nat
  edgeData : Bytes

namespace PutCall

def segid (c : PutCall) : Nat := c.src / vertexPerSeg

def segidx (c : PutCall) : Nat := c.src % vertexPerSeg

end PutCall

/-- What `put_edge` does next. -/
inductive PutAt
  | idle
  | locate (c : PutCall)
  | room (c : PutCall) (segment : Nat)
  | table (c : PutCall) (segment edgeBlock : Nat)
  | epoch (c : PutCall) (segment edgeBlock epochTable : Nat)
  | epochEntry (c : PutCall) (segment edgeBlock epochTable : Nat)
  | entry (c : PutCall) (segment edgeBlock : Nat)
  | property (c : PutCall) (segment allocatedEdgeNum : Nat)

/-- The memory, and where the writer is in its call. -/
structure Writing where
  graph : SegGraph
  pc : PutAt

namespace Writing

def newEpoch (g : SegGraph) (c : PutCall) (segment edgeBlock : Nat) : EpochEntry :=
  { epoch := c.writeEpochId
    offset := (g.segments segment).getPrevNumEntries edgeBlock + (g.segments segment).getNumEntries edgeBlock }

/-- One step of the writer (`epoch_graph_writer.cpp:151-386`); an early return has no next state. -/
def next (w : Writing) : Except Stop Writing :=
  match w.pc with
  | .idle => .ok w
  | .locate c => do
    let (segment, g) ← w.graph.initSegment c.segid c.label c.dir
    .ok ⟨g, .room c segment⟩
  | .room c segment => do
    let (segment, edgeBlock, g) ←
      w.graph.roomForEdge c.writeEpochId c.segid c.label c.dir c.segidx segment c.edgeData.length
    .ok ⟨g, .table c segment edgeBlock⟩
  | .table c segment edgeBlock => do
    let (epochTable, g) ← w.graph.initEpochTable c.writeEpochId segment c.segidx
    .ok ⟨g, .epoch c segment edgeBlock epochTable⟩
  | .epoch c segment edgeBlock epochTable =>
    if c.writeEpochId > (w.graph.epochBlocks epochTable).latestEpoch then do
      let (epochTable, g) ← w.graph.roomForEpoch segment c.segidx epochTable
      .ok ⟨g, .epochEntry c segment edgeBlock epochTable⟩
    else .ok ⟨w.graph, .entry c segment edgeBlock⟩
  | .epochEntry c segment edgeBlock epochTable =>
    .ok ⟨w.graph.setEpochBlock epochTable
      ({ w.graph.epochBlocks epochTable with latestEpoch := c.writeEpochId }.append
        (newEpoch w.graph c segment edgeBlock)), .entry c segment edgeBlock⟩
  | .entry c segment edgeBlock =>
    let seg := w.graph.segments segment
    .ok ⟨w.graph.setSegment segment (seg.appendEntry edgeBlock c.dst),
      .property c segment (seg.getAllocatedEdgeNum edgeBlock + seg.getNumEntries edgeBlock)⟩
  | .property c segment allocatedEdgeNum =>
    if c.edgeData.length > 0 then do
      let seg ← ((w.graph.segments segment).appendProperty allocatedEdgeNum c.edgeData).mapError .fault
      .ok ⟨w.graph.setSegment segment seg, .idle⟩
    else .ok ⟨w.graph, .idle⟩

/-- `n` steps one after the other. -/
def steps : Nat → Writing → Except Stop Writing
  | 0, w => .ok w
  | n + 1, w => do
    let w ← w.next
    steps n w

theorem steps_idle (n : Nat) (g : SegGraph) : steps n ⟨g, .idle⟩ = .ok ⟨g, .idle⟩ := by
  induction n with
  | zero => rfl
  | succ n ih => exact ih

theorem steps_entry {g : SegGraph} {c : PutCall} {segment edgeBlock : Nat} (n : Nat) :
    steps (n + 2) ⟨g, .entry c segment edgeBlock⟩ = (do
      let seg ← ((g.segments segment).insertEdge edgeBlock c.dst c.edgeData).mapError .fault
      .ok ⟨g.setSegment segment seg, .idle⟩) := by
  have hself : ∀ seg, (g.setSegment segment seg).segments segment = seg := fun seg => Function.update_self ..
  have hset : ∀ seg seg', (g.setSegment segment seg).setSegment segment seg' = g.setSegment segment seg' := by
    intro seg seg'
    simp only [SegGraph.setSegment, Function.update_idem]
  show (do
    let w ← next ⟨_, .property c segment _⟩
    steps n w) = _
  unfold next VegitoSegment.insertEdge
  dsimp only
  by_cases hdata : c.edgeData.length > 0
  · rw [if_pos hdata, if_pos hdata, hself]
    generalize ((g.segments segment).appendEntry edgeBlock c.dst).appendProperty _ c.edgeData = written
    cases written with
    | error fault => rfl
    | ok seg =>
      show steps n ⟨(g.setSegment segment _).setSegment segment seg, .idle⟩ = _
      rw [hset, steps_idle]
      rfl
  · rw [if_neg hdata, if_neg hdata]
    exact steps_idle n _

theorem steps_epoch {g : SegGraph} {c : PutCall} {segment edgeBlock epochTable : Nat} :
    steps 4 ⟨g, .epoch c segment edgeBlock epochTable⟩ = (do
      let g ← g.openEpoch c.writeEpochId segment c.segidx edgeBlock epochTable
      steps 2 ⟨g, .entry c segment edgeBlock⟩) := by
  have hmore : ∀ g', steps 3 ⟨g', .entry c segment edgeBlock⟩ = steps 2 ⟨g', .entry c segment edgeBlock⟩ := by
    intro g'
    rw [steps_entry 1, steps_entry 0]
  show (do
    let w ← next ⟨g, .epoch c segment edgeBlock epochTable⟩
    steps 3 w) = _
  unfold next SegGraph.openEpoch
  dsimp only
  by_cases hlater : c.writeEpochId > (g.epochBlocks epochTable).latestEpoch
  · rw [if_pos hlater, if_pos hlater]
    generalize g.roomForEpoch segment c.segidx epochTable = room
    cases room with
    | error stop => rfl
    | ok r => rfl
  · rw [if_neg hlater, if_neg hlater]
    exact hmore g

end Writing

theorem putEdge_eq_steps {g : SegGraph} {c : PutCall} (hsrc : c.src < g.vertexId) :
    Writing.steps 7 ⟨g, .locate c⟩ = (do
      let g ← g.putEdge c.writeEpochId c.src c.label c.dir c.dst c.edgeData
      .ok ⟨g, .idle⟩) := by
  unfold putEdge
  rw [if_neg (Nat.not_le.mpr hsrc)]
  show (do
    let w ← Writing.next ⟨g, .locate c⟩
    Writing.steps 6 w) = _
  simp only [Writing.next, bind_assoc]
  refine bind_congr fun located => ?_
  show (do
    let w ← Writing.next ⟨located.2, .room c located.1⟩
    Writing.steps 5 w) = _
  simp only [Writing.next, bind_assoc]
  refine bind_congr fun room => ?_
  show (do
    let w ← Writing.next ⟨room.2.2, .table c room.1 room.2.1⟩
    Writing.steps 4 w) = _
  simp only [Writing.next, bind_assoc]
  refine bind_congr fun table => ?_
  show Writing.steps 4 ⟨table.2, .epoch c room.1 room.2.1 table.1⟩ = _
  rw [Writing.steps_epoch]
  refine bind_congr fun opened => ?_
  exact Writing.steps_entry 0

end Gart.Seggraph
