import Gart.Store.PartitionRun

/-!
# The graphs of the inner vertices

Whatever vertices and edges a partition adds, directed or not, the graphs of its inner vertices keep their
invariant, and their lists hold edges of the size of their label without delete flags.
-/

namespace Gart.Store
open Gart.ByteMemory Gart.Outcome Gart.Fragment Gart.Seggraph

/-- Lists without delete markers, of edges that have the size of their label. -/
def Plain (stride : Nat → Nat) (log : Log) : Prop :=
  ∀ v l d, ∀ entry ∈ log v l d, entry.edge.dst < deleteFlag ∧ entry.edge.data.length = stride l

structure InnerGraph (k : Partition) (g : SegGraph) (log : Log) : Prop where
  graph : ∃ own, GraphInv (fun _ => True) k.stride g own log NoHole
  plain : Plain k.stride log
  small : k.small → g.blockManager.capacity ≤ 2 ^ 35

/-- The graphs of all labels, with lists that have at most `bound` entries. -/
structure InnerGraphs (k : Partition) (s : GraphStore) (log : Nat → Log) (bound : Nat → Nat → Nat → Nat) : Prop where
  idParser : s.idParser = k.parser
  localPid : s.localPid = k.pid
  stride : ∀ l, k.stride l = GraphStore.edgeDataSize (s.edgeDtypes.getD l [])
  label : ∀ i l, s.labels[i]? = some l → InnerGraph k l.graph (log i)
  length : ∀ i v e d, (log i v e d).length ≤ bound i v e

def endsOn (k : Partition) (vlabel v e : Nat) (r : GraphStore.EdgeRecord) (d : Dir) : Nat :=
  if OnVertex k vlabel v e d r then 1 else 0

def touches (k : Partition) (edges : List GraphStore.EdgeRecord) (vlabel v e : Nat) : Nat :=
  (edges.map fun r => endsOn k vlabel v e r .eout + endsOn k vlabel v e r .ein).sum

section steps
variable {k : Partition} {s s' : GraphStore} {log : Nat → Log} {newLog : Log} {bound : Nat → Nat → Nat → Nat}
  {vlabel : Nat} {l l' : LabelStore} {g g' : SegGraph} {r : GraphStore.EdgeRecord} {d : Dir}

theorem touches_append (edges more : List GraphStore.EdgeRecord) (vlabel v e : Nat) :
    touches k (edges ++ more) vlabel v e = touches k edges vlabel v e + touches k more vlabel v e := by
  unfold touches
  rw [List.map_append, List.sum_append]

/-! ### One graph -/

theorem InnerGraph.writer {log : Log} (h : InnerGraph k g log) (recycle : Bool) (epoch : Nat) :
    InnerGraph k (g.createGraphWriter recycle epoch) log := by
  obtain ⟨own, hgraph⟩ := h.graph
  refine ⟨createGraphWriter_inv hgraph recycle epoch, h.plain, fun hsmall => ?_⟩
  rw [(createGraphWriter_sameGraph g recycle epoch).capacity]
  exact h.small hsmall

theorem InnerGraph.newVertex {log : Log} (h : InnerGraph k g log) : InnerGraph k g.newVertex log := by
  obtain ⟨own, hgraph⟩ := h.graph
  refine ⟨⟨own, newVertex_inv hgraph⟩, h.plain, fun hsmall => ?_⟩
  rw [newVertex_capacity]
  exact h.small hsmall

theorem InnerGraph.putEdge {log : Log} {epoch src label dst : Nat} {dir : Dir} {data : Bytes} (h : InnerGraph k g log)
    (hdata : data.length = k.stride label) (hdst : dst < deleteFlag)
    (hroom : k.small ∨ (log src label dir).length + 1 < 2 ^ 32)
    (hput : g.putEdge epoch src label dir dst data = .ok g') :
    ∃ undirected entry, InnerGraph k g' (appendLog undirected log src label dir entry) := by
  obtain ⟨own, hgraph⟩ := h.graph
  have hsrc : src < g.vertexId := by
    by_contra hnot
    rw [putEdge_invalid (Nat.not_lt.mp hnot)] at hput
    cases hput
  have hshort : (log src label dir).length + 1 < 2 ^ 32 := by
    rcases hroom with hsmall | hcount
    · exact hgraph.length_of_capacity (h.small hsmall) src label dir
    · exact hcount
  obtain ⟨seen, hseen⟩ := exists_seenFrom epoch (log src label dir)
  have hspec := putEdge_seen hgraph hsrc (Nat.lt_trans hdst (by decide)) (Or.inr hdata) (Nat.le_of_eq hdata)
    (fun _ => hdata) (fun _ => by rw [hdata]; exact fun hfits => hfits) hseen hshort
  obtain ⟨hgraph', hsame⟩ := hspec.of_ok hput
  refine ⟨_, _, hgraph', fun v e d entry hentry => ?_, fun hsmall => ?_⟩
  · unfold appendLog at hentry
    split at hentry
    · rename_i hon
      rcases List.mem_append.mp hentry with hold | hnew
      · exact h.plain v e d entry hold
      · rw [List.mem_singleton.mp hnew, hon.2.1]
        exact ⟨hdst, hdata⟩
    · exact h.plain v e d entry hentry
  · rw [hsame.capacity]
    exact h.small hsmall

/-! ### The store -/

theorem InnerGraphs.one (h : InnerGraphs k s log bound) (hone : OneLabel vlabel l l' s s')
    (hlabel : InnerGraph k l.graph (log vlabel) → InnerGraph k l'.graph newLog)
    {bound' : Nat → Nat → Nat → Nat}
    (hlength : ∀ i v e d, (Function.update log vlabel newLog i v e d).length ≤ bound' i v e) :
    InnerGraphs k s' (Function.update log vlabel newLog) bound' := by
  refine ⟨hone.same.idParser.trans h.idParser, hone.same.localPid.trans h.localPid, fun e => ?_, fun i m hm => ?_,
    hlength⟩
  · rw [hone.same.edgeDtypes]
    exact h.stride e
  · rw [hone.after] at hm
    split at hm
    · rename_i hi
      rw [hi, Function.update_self, ← Option.some.inj hm]
      exact hlabel (h.label vlabel l hone.before)
    · rename_i hi
      rw [Function.update_of_ne hi]
      exact h.label i m hm

theorem InnerGraphs.keep (h : InnerGraphs k s log bound) (hone : OneLabel vlabel l l' s s')
    (hlabel : InnerGraph k l.graph (log vlabel) → InnerGraph k l'.graph (log vlabel)) : InnerGraphs k s' log bound := by
  have hnew : InnerGraphs k s' (Function.update log vlabel (log vlabel)) bound := by
    refine h.one hone hlabel fun i v e d => ?_
    rw [Function.update_eq_self]
    exact h.length i v e d
  rw [Function.update_eq_self] at hnew
  exact hnew

theorem InnerGraphs.writer {recycle : Bool} {epoch : Nat} (h : InnerGraphs k s log bound)
    (hstep : s.onGraph vlabel (fun g => .ok (g.createGraphWriter recycle epoch)) = .ok s') :
    InnerGraphs k s' log bound := by
  obtain ⟨l, g, hone, hg⟩ := onGraph_cases hstep
  refine h.keep hone fun hl => ?_
  show InnerGraph k g _
  rw [← Except.ok.inj hg]
  exact hl.writer recycle epoch

theorem InnerGraphs.onOvGraph {f : SegGraph → Except Stop SegGraph} (h : InnerGraphs k s log bound)
    (hstep : s.onOvGraph vlabel f = .ok s') : InnerGraphs k s' log bound := by
  obtain ⟨l, g, hone, -⟩ := onOvGraph_cases hstep
  exact h.keep hone fun hl => hl

theorem InnerGraphs.outerEndpoint {recycle : Bool} {epoch vid ov : Nat} {externalId : Bytes}
    (h : InnerGraphs k s log bound) (hstep : s.outerEndpoint recycle epoch vid externalId = .ok (ov, s')) :
    InnerGraphs k s' log bound := by
  unfold GraphStore.outerEndpoint at hstep
  dsimp only at hstep
  obtain ⟨l, hl, hstep⟩ := bind_eq_ok hstep
  have hl := getLabel_eq hl
  split at hstep
  · rw [← (Prod.mk.inj (Except.ok.inj hstep)).2]
    exact h.keep (oneLabel_setLabel hl _ _) fun hl => hl
  · obtain ⟨⟨l', strings⟩, hadd, hstep⟩ := bind_eq_ok hstep
    rw [← (Prod.mk.inj (Except.ok.inj hstep)).2]
    refine h.keep (oneLabel_setLabel hl _ _) fun hgraph => ?_
    unfold GraphStore.addOuterVertex at hadd
    dsimp only at hadd
    obtain ⟨vtable, -, hadd⟩ := bind_eq_ok hadd
    obtain ⟨⟨value, strings'⟩, -, hadd⟩ := bind_eq_ok hadd
    obtain ⟨l2, hmap, hadd⟩ := bind_eq_ok hadd
    obtain ⟨map, rfl⟩ := mapVertex_eq hmap
    obtain ⟨rfl, -⟩ := Prod.mk.inj (Except.ok.inj hadd)
    exact hgraph

theorem InnerGraphs.prepareEdge {draws : GraphStore.Draws} {data : Bytes} (h : InnerGraphs k s log bound)
    (hstep : s.prepareEdge draws r = .ok (data, s')) :
    InnerGraphs k s' log bound ∧ data.length = k.stride r.elabel := by
  unfold GraphStore.prepareEdge at hstep
  obtain ⟨s1, hsrc, hstep⟩ := bind_eq_ok hstep
  obtain ⟨s2, hdst, hstep⟩ := bind_eq_ok hstep
  obtain ⟨⟨data', strings⟩, hprop, hstep⟩ := bind_eq_ok hstep
  obtain ⟨hdata, hs⟩ := Prod.mk.inj (Except.ok.inj hstep)
  have h2 := (h.writer hsrc).writer hdst
  rw [← hdata, ← hs, (constructEprop_length hprop).1, h2.stride]
  exact ⟨⟨h2.idParser, h2.localPid, h2.stride, h2.label, h2.length⟩, rfl⟩

def withEnd (k : Partition) (bound : Nat → Nat → Nat → Nat) (r : GraphStore.EdgeRecord) (d : Dir) :
    Nat → Nat → Nat → Nat := fun i v e => bound i v e + endsOn k i v e r d

theorem InnerGraphs.withEnd (h : InnerGraphs k s log bound) (r : GraphStore.EdgeRecord) (d : Dir) :
    InnerGraphs k s log (withEnd k bound r d) :=
  { h with length := fun i v e d' => Nat.le_trans (h.length i v e d') (Nat.le_add_right _ _) }

theorem InnerGraphs.putInner {lid : Nat} {data : Bytes} (h : InnerGraphs k s log bound)
    (hmine : k.parser.getFid (r.vid d) = k.pid) (hlid : lid < deleteFlag) (hdata : data.length = k.stride r.elabel)
    (hroom : k.small ∨ ∀ i v e, Store.withEnd k bound r d i v e < 2 ^ 32)
    (hstep : s.onGraph (k.parser.getLabelId (r.vid d)) (fun g =>
      g.putEdge r.epoch (k.parser.getOffset (r.vid d)) r.elabel d lid data) = .ok s') :
    ∃ log', InnerGraphs k s' log' (Store.withEnd k bound r d) := by
  obtain ⟨l, g, hone, hg⟩ := onGraph_cases hstep
  have hon : OnVertex k (k.parser.getLabelId (r.vid d)) (k.parser.getOffset (r.vid d)) r.elabel d r :=
    ⟨hmine, rfl, rfl, rfl⟩
  have hroom' : k.small ∨ (log (k.parser.getLabelId (r.vid d)) (k.parser.getOffset (r.vid d)) r.elabel d).length + 1 <
      2 ^ 32 := by
    refine hroom.imp_right fun hlt => ?_
    have hlt := hlt (k.parser.getLabelId (r.vid d)) (k.parser.getOffset (r.vid d)) r.elabel
    have hle := h.length (k.parser.getLabelId (r.vid d)) (k.parser.getOffset (r.vid d)) r.elabel d
    unfold Store.withEnd endsOn at hlt
    rw [if_pos hon] at hlt
    omega
  obtain ⟨undirected, entry, hnew⟩ := (h.label _ l hone.before).putEdge hdata hlid hroom' hg
  refine ⟨_, h.one hone (fun _ => hnew) fun i v e d' => ?_⟩
  have hle := h.length i v e d'
  unfold Store.withEnd
  by_cases hi : i = k.parser.getLabelId (r.vid d)
  · rw [hi, Function.update_self]
    rw [hi] at hle
    unfold appendLog
    split
    · rename_i hat
      obtain ⟨hv, he, -⟩ := hat
      rw [hv, he] at hle ⊢
      unfold endsOn
      rw [if_pos hon, List.length_append, List.length_singleton]
      omega
    · omega
  · rw [Function.update_of_ne hi]
    omega

theorem InnerGraphs.addEdge {draws : GraphStore.Draws} (h : InnerGraphs k s log bound) (hnarrow : k.Narrow)
    (hroom : k.small ∨ ∀ i v e, Store.withEnd k (Store.withEnd k bound r .eout) r .ein i v e < 2 ^ 32)
    (hstep : s.processAddEdge draws r = .ok s') :
    ∃ log', InnerGraphs k s' log' (Store.withEnd k (Store.withEnd k bound r .eout) r .ein) := by
  have hroomOut : k.small ∨ ∀ i v e, Store.withEnd k bound r .eout i v e < 2 ^ 32 :=
    hroom.imp_right fun hlt i v e => Nat.lt_of_le_of_lt (Nat.le_add_right _ _) (hlt i v e)
  unfold GraphStore.processAddEdge at hstep
  dsimp only at hstep
  rw [h.idParser, h.localPid] at hstep
  split at hstep
  · rw [← Except.ok.inj hstep]
    exact ⟨log, (h.withEnd r .eout).withEnd r .ein⟩
  · rename_i hsome
    obtain ⟨⟨data, s1⟩, hprepare, hstep⟩ := bind_eq_ok hstep
    obtain ⟨h1, hdata⟩ := h.prepareEdge hprepare
    dsimp only at hstep
    rw [h1.localPid] at hstep
    split at hstep
    · rename_i hcase
      obtain ⟨⟨ov, s2⟩, hendpoint, hstep⟩ := bind_eq_ok hstep
      have h2 := h1.outerEndpoint hendpoint
      obtain ⟨s3, hout, hin⟩ := bind_eq_ok hstep
      have hlid : s2.outerLid (k.parser.getLabelId r.dstVid) ov < deleteFlag := by
        unfold GraphStore.outerLid
        rw [h2.idParser]
        exact hnarrow _ _ _
      obtain ⟨log3, h3⟩ := @InnerGraphs.putInner k s2 s3 log bound r .eout _ data h2 hcase.1 hlid hdata hroomOut hout
      exact ⟨log3, (h3.onOvGraph hin).withEnd r .ein⟩
    · split at hstep
      · rename_i hcase
        obtain ⟨⟨ov, s2⟩, hendpoint, hstep⟩ := bind_eq_ok hstep
        have h2 := h1.outerEndpoint hendpoint
        obtain ⟨s3, hout, hin⟩ := bind_eq_ok hstep
        have h3 := (h2.onOvGraph hout).withEnd r .eout
        have hlid : s3.outerLid (k.parser.getLabelId r.srcVid) ov < deleteFlag := by
          unfold GraphStore.outerLid
          rw [h3.idParser]
          exact hnarrow _ _ _
        exact @InnerGraphs.putInner k s3 s' log _ r .ein _ data h3 hcase.2 hlid hdata hroom hin
      · rename_i hnot hnot'
        have hsrc : k.parser.getFid r.srcVid = k.pid := by
          by_contra hne
          by_cases hdst : k.parser.getFid r.dstVid = k.pid
          · exact hnot' ⟨hne, hdst⟩
          · exact hsome ⟨hne, hdst⟩
        have hdst : k.parser.getFid r.dstVid = k.pid := by
          by_contra hne
          exact hnot ⟨hsrc, hne⟩
        obtain ⟨s3, hout, hin⟩ := bind_eq_ok hstep
        obtain ⟨log3, h3⟩ := @InnerGraphs.putInner k s1 s3 log bound r .eout _ data h1 hsrc (hnarrow _ _ _) hdata
          hroomOut hout
        exact @InnerGraphs.putInner k s3 s' log3 _ r .ein _ data h3 hdst (hnarrow _ _ _) hdata hroom hin

theorem InnerGraphs.addVertex {recycle : Bool} {cmd : VertexCmd} (h : InnerGraphs k s log bound)
    (hstep : s.processAddVertex recycle cmd = .ok s') : InnerGraphs k s' log bound := by
  obtain ⟨l, l', hone, hcases⟩ := insertInnerVertex_cases hstep
  refine h.keep hone fun hl => ?_
  rcases hcases with ⟨-, ⟨map, rfl⟩, -⟩ | ⟨-, hinserted⟩
  · exact hl
  · rw [hinserted.graph]
    exact (hl.writer recycle _).newVertex

/-! ### The run -/

theorem InnerGraphs.run {lines : List (GraphStore.Draws × Record)} {past : List GraphStore.EdgeRecord}
    (h : InnerGraphs k s log (touches k past)) (hnarrow : k.Narrow)
    (hcounts : k.small ∨ ∀ i v e, touches k (past ++ edgesOf (lines.map Prod.snd)) i v e < 2 ^ 32)
    (hrun : lines.foldlM GraphStore.applyAdd s = .ok s') :
    ∃ log', InnerGraphs k s' log' (touches k (past ++ edgesOf (lines.map Prod.snd))) := by
  induction lines generalizing s log past with
  | nil =>
    rw [← Except.ok.inj hrun, List.map_nil, show edgesOf [] = [] from rfl, List.append_nil]
    exact ⟨log, h⟩
  | cons line lines ih =>
    obtain ⟨draws, rec⟩ := line
    rw [List.foldlM_cons] at hrun
    obtain ⟨s'', hstep, hrest⟩ := bind_eq_ok hrun
    cases rec with
    | addVertex cmd => exact ih (h.addVertex hstep) hcounts hrest
    | addEdge cmd =>
      have hedges : edgesOf (((draws, Record.addEdge cmd) :: lines).map Prod.snd) =
          cmd.toRecord :: edgesOf (lines.map Prod.snd) := rfl
      have hsplit : past ++ cmd.toRecord :: edgesOf (lines.map Prod.snd) =
          past ++ [cmd.toRecord] ++ edgesOf (lines.map Prod.snd) := by simp
      rw [hedges, hsplit] at hcounts ⊢
      have hbound : Store.withEnd k (Store.withEnd k (touches k past) cmd.toRecord .eout) cmd.toRecord .ein =
          touches k (past ++ [cmd.toRecord]) := by
        funext i v e
        rw [touches_append]
        show _ = touches k past i v e +
          (endsOn k i v e cmd.toRecord .eout + endsOn k i v e cmd.toRecord .ein + 0)
        unfold Store.withEnd
        omega
      have hroom : k.small ∨ ∀ i v e, touches k (past ++ [cmd.toRecord]) i v e < 2 ^ 32 := by
        refine hcounts.imp_right fun hlt i v e => ?_
        have hlt := hlt i v e
        rw [touches_append] at hlt
        exact Nat.lt_of_le_of_lt (Nat.le_add_right _ _) hlt
      rw [← hbound] at hroom
      obtain ⟨log', hnext⟩ := h.addEdge hnarrow hroom hstep
      rw [hbound] at hnext
      exact ih hnext hcounts hrest
    | updateVertex cmd => cases hstep
    | deleteVertex cmd => cases hstep
    | deleteEdge cmd => cases hstep
    | bulkloadEnd epoch => cases hstep
    | unsupported op => cases hstep

end steps

theorem innerGraphs_create {c : StoreConfig} {sb : SchemaBuild} (hcap : ∀ i, (c.label i).blockSize ≤ 2 ^ 64) :
    InnerGraphs (partitionOf c sb) (GraphStore.create c sb) (fun _ => emptyLog) (touches (partitionOf c sb) []) := by
  refine ⟨rfl, rfl, fun _ => rfl, fun i l hl => ?_, fun i v e d => Nat.le_refl 0⟩
  unfold GraphStore.create at hl
  dsimp only at hl
  rw [List.getElem?_map, List.getElem?_zipIdx] at hl
  obtain ⟨x, hx, rfl⟩ := Option.map_eq_some_iff.mp hl
  obtain ⟨layout, -, rfl⟩ := Option.map_eq_some_iff.mp hx
  rw [Nat.zero_add]
  refine ⟨⟨_, create_inv _ _ (hcap i)⟩, fun v l d entry hentry => (by cases hentry), fun hsmall => ?_⟩
  simp only [LabelStore.create, SegGraph.create, BlockManager.create_eq]
  exact hsmall i

theorem partitionOf_narrow {c : StoreConfig} {sb : SchemaBuild} (hparts : c.totalPartitions < 2 ^ 31) :
    (partitionOf c sb).Narrow := by
  intro fid label offset
  have hwidth := @IdParser.numToBitwidth_le c.totalPartitions 31 (by decide) (Nat.le_of_lt hparts)
  exact IdParser.generateId_lt (by omega)

end Gart.Store
