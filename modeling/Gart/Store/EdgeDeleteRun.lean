import Gart.Store.EdgeDeletes
import Gart.Store.InnerGraphs

/-!
# The run of additions and deletions

Each record puts an entry into the outgoing list of one vertex and the incoming list of another. The first of the two
calls leaves what the second needs.
-/

namespace Gart.Store
open Gart.ByteMemory Gart.BitField Gart.Outcome Gart.Fragment Gart.Seggraph Gart.Seggraph.SegGraph Gart.MarkerLog

/-! ### Local ids -/

/-- Local ids leave the top bit free and have the label and the offset of the global id, which name an inner vertex. -/
structure Partition.Ids (k : Partition) : Prop where
  narrow : k.Narrow
  label : ∀ gid, k.parser.getLabelId (innerLid k.parser gid) = k.parser.getLabelId gid
  offset : ∀ gid, k.parser.getOffset (innerLid k.parser gid) = k.parser.getOffset gid
  inner : ∀ gid gid', InnerGid k gid → InnerGid k gid' → k.parser.getLabelId gid = k.parser.getLabelId gid' →
    k.parser.getOffset gid = k.parser.getOffset gid' → gid = gid'

theorem partitionOf_ids {c : StoreConfig} {sb : SchemaBuild} (hparts : c.totalPartitions < 2 ^ 31) :
    (partitionOf c sb).Ids := by
  have hwidth := @IdParser.numToBitwidth_le c.totalPartitions 31 (by decide) (Nat.le_of_lt hparts)
  have hf : numToBitwidth c.totalPartitions ≤ 56 := by omega
  refine ⟨partitionOf_narrow hparts, fun gid => ?_, fun gid => ?_, fun gid gid' hgid hgid' hlabel hoffset => ?_⟩
  · exact IdParser.getLabelId_generateId hf extract_lt
  · refine IdParser.getOffset_generateId hf ?_
    rw [← IdParser.offsetWidth_eq hf]
    exact extract_lt
  · change (IdParser.init c.totalPartitions).getLabelId gid =
        (IdParser.init c.totalPartitions).getLabelId gid' at hlabel
    change (IdParser.init c.totalPartitions).getOffset gid = (IdParser.init c.totalPartitions).getOffset gid' at hoffset
    have hfid : (IdParser.init c.totalPartitions).getFid gid = (IdParser.init c.totalPartitions).getFid gid' :=
      hgid.2.trans hgid'.2.symm
    rw [← IdParser.generateId_fields hf hgid.1, hfid, hlabel, hoffset, IdParser.generateId_fields hf hgid'.1]

/-- The room that the lists of a partition need for their records. -/
def Partition.ListRoom (k : Partition) (log : List Record) : Prop :=
  k.small ∨ ∀ vlabel v e d, (opsOn k vlabel v e d log).length < 2 ^ 32

theorem Partition.ListRoom.of_append {k : Partition} {log more : List Record} (h : k.ListRoom (log ++ more)) :
    k.ListRoom log := by
  refine h.imp_right fun hcount vlabel v e d => ?_
  have hall := hcount vlabel v e d
  rw [opsOn_append, List.length_append] at hall
  exact Nat.lt_of_le_of_lt (Nat.le_add_right _ _) hall

section records
variable {k : Partition} {slot : Nat → Nat} {undirected : Nat → Bool} {dtypes : List (List PropertyDataType)}
  {s s' : GraphStore} {log : Nat → Log} {past : Dir → List Record} {w size : Nat} {d d' : Dir} {vlabel : Nat}
  {l l' : LabelStore} {g : SegGraph} {r : GraphStore.EdgeRecord} {cmd : EdgeCmd} {rec : Record} {op : ListOp Nat}

/-! ### What a record is to its lists -/

/-- A record is an operation on the lists of the ends of an edge and on no others. -/
structure EdgeOp (k : Partition) (rec : Record) (r : GraphStore.EdgeRecord) (d : Dir) (op : ListOp Nat) : Prop where
  epoch : rec.epoch = r.epoch
  on : opOn k (k.parser.getLabelId (r.vid d)) (k.parser.getOffset (r.vid d)) r.elabel d rec = some op
  other : ∀ i v e, ¬ (i = k.parser.getLabelId (r.vid d) ∧ v = k.parser.getOffset (r.vid d) ∧ e = r.elabel) →
    opOn k i v e d rec = none

theorem edgeOp_add (hmine : k.parser.getFid (cmd.toRecord.vid d) = k.pid) :
    EdgeOp k (.addEdge cmd) cmd.toRecord d (.add (innerLid k.parser (cmd.toRecord.other d))) where
  epoch := rfl
  on := if_pos ⟨hmine, rfl, rfl, rfl⟩
  other _ _ _ hne := if_neg fun hon => hne ⟨hon.2.1.symm, hon.2.2.1.symm, hon.2.2.2.symm⟩

theorem edgeOp_del (hmine : k.parser.getFid (cmd.toRecord.vid d) = k.pid) :
    EdgeOp k (.deleteEdge cmd) cmd.toRecord d (.del (innerLid k.parser (cmd.toRecord.other d))) where
  epoch := rfl
  on := if_pos ⟨hmine, rfl, rfl, rfl⟩
  other _ _ _ hne := if_neg fun hon => hne ⟨hon.2.1.symm, hon.2.2.1.symm, hon.2.2.2.symm⟩

/-! ### Steps that change no list -/

def FitsKept (slot : Nat → Nat) (s s' : GraphStore) (r : GraphStore.EdgeRecord) (d : Dir) : Prop :=
  ∀ size, EndFits slot s r d size → EndFits slot s' r d size

theorem EdgeLists.keep (h : EdgeLists k slot undirected dtypes s log past w) (hone : OneLabel vlabel l l' s s')
    (hgraph : ListGraph (fun _ => False) slot undirected k.small l.graph (log vlabel) →
      ListGraph (fun _ => False) slot undirected k.small l'.graph (log vlabel)) :
    EdgeLists k slot undirected dtypes s' log past w := by
  refine ⟨hone.same.idParser.trans h.idParser, hone.same.localPid.trans h.localPid, hone.same.edgeDtypes.trans h.dtypes,
    fun i m hm => ?_, h.sorted, h.bounded, h.pastBounded, h.cells, h.live⟩
  rw [hone.after] at hm
  split at hm
  · rename_i hi
    rw [hi, ← Option.some.inj hm]
    exact hgraph (h.graph vlabel l hone.before)
  · exact h.graph i m hm

theorem EdgeLists.ignore (h : EdgeLists k slot undirected dtypes s log past w) (hle : w ≤ rec.epoch)
    (hnone : ∀ i v e d, opOn k i v e d rec = none) :
    EdgeLists k slot undirected dtypes s log (fun d => past d ++ [rec]) rec.epoch := by
  refine ⟨h.idParser, h.localPid, h.dtypes, h.graph, h.sorted, fun i v e d entry hentry => ?_, fun d r hr => ?_,
    fun i v e d hdir t => ?_, fun i v e d => ?_⟩
  · exact Nat.le_trans (h.bounded i v e d entry hentry) hle
  · rcases List.mem_append.mp hr with hold | hnew
    · exact Nat.le_trans (h.pastBounded d r hold) hle
    · rw [List.mem_singleton.mp hnew]
  · rw [h.cells i v e d hdir t]
    by_cases ht : rec.epoch ≤ t
    · rw [upTo_append_of_le ht, opsOn_append_none (hnone i v e d)]
    · rw [upTo_append_of_not ht]
  · rw [opsOn_append_none (hnone i v e d)]
    exact h.live i v e d

theorem EdgeLists.writer {recycle : Bool} {epoch : Nat} (h : EdgeLists k slot undirected dtypes s log past w)
    (hstep : s.onGraph vlabel (fun g => .ok (g.createGraphWriter recycle epoch)) = .ok s') :
    EdgeLists k slot undirected dtypes s' log past w ∧ ∀ r d, FitsKept slot s s' r d := by
  obtain ⟨l, g, hone, hg⟩ := onGraph_cases hstep
  have hg : l.graph.createGraphWriter recycle epoch = g := Except.ok.inj hg
  refine ⟨h.keep hone fun hl => ?_, fun r d size hfits l' hl' => ?_⟩
  · rw [show ({ l with graph := g } : LabelStore).graph = l.graph.createGraphWriter recycle epoch from hg.symm]
    exact hl.writer recycle epoch
  · have hl' : s'.labels[s'.idParser.getLabelId (r.vid d)]? = some l' := hl'
    rw [hone.same.idParser] at hl' ⊢
    rw [hone.after] at hl'
    split at hl'
    · rename_i hat
      rw [← Option.some.inj hl']
      show PutFits slot g _ _ _ _
      rw [← hg, putFits_writer]
      refine hfits l ?_
      rw [hat]
      exact hone.before
    · exact hfits l' hl'

/-! ### One end of an edge -/

theorem EdgeLists.room (h : EdgeLists k slot undirected dtypes s log past w) (hdirected : undirected r.elabel = false)
    (hop : EdgeOp k rec r d op) (hroom : k.ListRoom (past d ++ [rec])) :
    k.small ∨ (log (k.parser.getLabelId (r.vid d)) (k.parser.getOffset (r.vid d)) r.elabel d).length + 1 < 2 ^ 32 := by
  refine hroom.imp_right fun hcount => ?_
  have hall := hcount (k.parser.getLabelId (r.vid d)) (k.parser.getOffset (r.vid d)) r.elabel d
  rw [opsOn_append_some hop.on, List.length_append, List.length_singleton] at hall
  rw [← length_cellsOf, h.now hdirected]
  exact Nat.lt_of_le_of_lt (Nat.succ_le_succ length_cellsAfter) hall

theorem EdgeLists.append {dst : Nat} {data : Bytes} (h : EdgeLists k slot undirected dtypes s log past w)
    (hdirected : undirected r.elabel = false) (hop : EdgeOp k rec r d op) (hle : w ≤ rec.epoch) (hdst : dst < 2 ^ 64)
    (hfits : EndFits slot s r d data.length) (hroom : k.ListRoom (past d ++ [rec]))
    (happly : op.apply k.parser.getOffset
        (cellsOf (log (k.parser.getLabelId (r.vid d)) (k.parser.getOffset (r.vid d)) r.elabel d)) =
      cellsOf (log (k.parser.getLabelId (r.vid d)) (k.parser.getOffset (r.vid d)) r.elabel d) ++ [entryCell dst])
    (hdel : ∀ x, op = .del x → Deletable k.parser.getOffset (opsAt k r d (past d)) x)
    (hone : OneLabel (k.parser.getLabelId (r.vid d)) l { l with graph := g } s s')
    (hput : l.graph.putEdge r.epoch (k.parser.getOffset (r.vid d)) r.elabel d dst data = .ok g) :
    (∃ log', EdgeLists k slot undirected dtypes s' log' (Function.update past d (past d ++ [rec])) rec.epoch) ∧
      ∀ d', d' ≠ d → FitsKept slot s s' r d' := by
  have hgraph := h.graph _ l hone.before
  have hput' : PutFits slot l.graph (k.parser.getOffset (r.vid d)) r.elabel d data.length := by
    have hat := hfits l
    rw [h.idParser] at hat
    exact hat hone.before
  have hseen :
      SeenFrom r.epoch (log (k.parser.getLabelId (r.vid d)) (k.parser.getOffset (r.vid d)) r.elabel d) r.epoch :=
    ⟨Nat.le_refl _, fun entry hentry => Nat.le_trans (h.bounded _ _ _ _ entry hentry) (hop.epoch ▸ hle), Or.inl rfl⟩
  obtain ⟨hgraph', helse, -⟩ := hgraph.putEdge hput' (fun hfalse => hfalse.elim) hdst hseen
    (h.room hdirected hop hroom) hput
  rw [hdirected] at hgraph'
  have hlog : ∀ v' e' d',
      appendLog false (log (k.parser.getLabelId (r.vid d))) (k.parser.getOffset (r.vid d)) r.elabel d
      ⟨r.epoch, ⟨dst, data⟩⟩ v' e' d' = if v' = k.parser.getOffset (r.vid d) ∧ e' = r.elabel ∧ d' = d then
        log (k.parser.getLabelId (r.vid d)) v' e' d' ++ [⟨r.epoch, ⟨dst, data⟩⟩]
      else log (k.parser.getLabelId (r.vid d)) v' e' d' := by
    intro v' e' d'
    unfold appendLog SameList
    exact if_congr (by simp) rfl rfl
  refine ⟨⟨_, h.grow hone (fun _ => hgraph') hlog (fun entry hentry => ?_) (Nat.le_refl 1) hle hop.on hop.other
    (fun _ => ?_) hdel⟩, fun d' hd' size hfits' l' hl' => ?_⟩
  · rw [List.mem_singleton.mp hentry]
    exact hop.epoch.symm
  · rw [happly]
    exact cellsOf_append
  · have hl' : s'.labels[s'.idParser.getLabelId (r.vid d')]? = some l' := hl'
    rw [hone.same.idParser, h.idParser] at hl' ⊢
    rw [hone.after] at hl'
    have hfits' : ∀ l ∈ s.labels[k.parser.getLabelId (r.vid d')]?,
        PutFits slot l.graph (k.parser.getOffset (r.vid d')) r.elabel d' size := by
      rw [← h.idParser]
      exact hfits'
    split at hl'
    · rename_i hat
      rw [← Option.some.inj hl']
      have hbefore : s.labels[k.parser.getLabelId (r.vid d')]? = some l := by
        rw [hat]
        exact hone.before
      refine (hfits' l hbefore).elsewhere helse fun hsame => ?_
      rcases hsame.2.2 with hdir | hund
      · exact hd' hdir
      · rw [hgraph.undirected, hdirected] at hund
        cases hund
    · exact hfits' l' hl'

theorem EdgeLists.putEntry {data : Bytes} (h : EdgeLists k slot undirected dtypes s log past w) (hids : k.Ids)
    (hdirected : undirected cmd.toRecord.elabel = false) (hmine : k.parser.getFid (cmd.toRecord.vid d) = k.pid)
    (hle : w ≤ (Record.addEdge cmd).epoch) (hfits : EndFits slot s cmd.toRecord d data.length)
    (hroom : k.ListRoom (past d ++ [.addEdge cmd]))
    (hstep : s.onGraph (k.parser.getLabelId (cmd.toRecord.vid d)) (fun g =>
      g.putEdge cmd.toRecord.epoch (k.parser.getOffset (cmd.toRecord.vid d)) cmd.toRecord.elabel d
        (innerLid k.parser (cmd.toRecord.other d)) data) = .ok s') :
    (∃ log', EdgeLists k slot undirected dtypes s' log' (Function.update past d (past d ++ [.addEdge cmd]))
        (Record.addEdge cmd).epoch) ∧ ∀ d', d' ≠ d → FitsKept slot s s' cmd.toRecord d' := by
  obtain ⟨l, g, hone, hput⟩ := onGraph_cases hstep
  have hlid : innerLid k.parser (cmd.toRecord.other d) < deleteFlag := hids.narrow _ _ _
  refine h.append hdirected (edgeOp_add hmine) hle (Nat.lt_trans hlid (by decide)) hfits hroom ?_
      (fun x hx => ?_) hone hput
  · rw [entryCell_data hlid]
    rfl
  · cases hx

theorem EdgeLists.deleteEntry {searched : Nat → Bool} {data : Bytes}
    (h : EdgeLists k slot undirected dtypes s log past w) (hids : k.Ids)
    (hdirected : undirected cmd.toRecord.elabel = false) (hmine : k.parser.getFid (cmd.toRecord.vid d) = k.pid)
    (hle : w ≤ (Record.deleteEdge cmd).epoch)
    (hok : NeverAdded k.parser.getOffset (opsAt k cmd.toRecord d (past d)) (k.parser.getOffset (cmd.toRecord.other d)) ∨
      AddedLast k.parser.getOffset (opsAt k cmd.toRecord d (past d)) (innerLid k.parser (cmd.toRecord.other d)) ∧
        EndFits slot s cmd.toRecord d data.length)
    (hroom : k.ListRoom (past d ++ [.deleteEdge cmd]))
    (hsearched : ∀ x, searched x = true ↔
      k.parser.getOffset x = k.parser.getOffset (cmd.toRecord.other d) ∧ x < deleteFlag)
    (hstep : s.onGraph (k.parser.getLabelId (cmd.toRecord.vid d)) (fun g =>
      g.deleteEntry cmd.toRecord.epoch (k.parser.getOffset (cmd.toRecord.vid d)) cmd.toRecord.elabel d searched data) =
      .ok s') :
    (∃ log', EdgeLists k slot undirected dtypes s' log' (Function.update past d (past d ++ [.deleteEdge cmd]))
        (Record.deleteEdge cmd).epoch) ∧ ∀ d', d' ≠ d → FitsKept slot s s' cmd.toRecord d' := by
  obtain ⟨l, g, hone, hdelete⟩ := onGraph_cases hstep
  obtain ⟨own, hgraph⟩ := (h.graph _ l hone.before).graph
  have hop := edgeOp_del hmine
  have hkey : k.parser.getOffset (innerLid k.parser (cmd.toRecord.other d)) =
      k.parser.getOffset (cmd.toRecord.other d) :=
    hids.offset _
  have hdeletable : ∀ x, ListOp.del (innerLid k.parser (cmd.toRecord.other d)) = .del x →
      Deletable k.parser.getOffset (opsAt k cmd.toRecord d (past d)) x := by
    intro x hx
    rw [← ListOp.del.inj hx]
    refine hok.imp (fun hnever => ?_) And.left
    rw [hkey]
    exact hnever
  have hnow : cellsOf (log (k.parser.getLabelId (cmd.toRecord.vid d)) (k.parser.getOffset (cmd.toRecord.vid d))
      cmd.toRecord.elabel d) = cellsAfter k.parser.getOffset (opsAt k cmd.toRecord d (past d)) := h.now hdirected
  have hcases := deleteEntry_cases hgraph hdelete
  rw [newest_eq_newestAt hsearched, ← hkey, ← length_cellsOf] at hcases
  rcases hcases with ⟨hnone, rfl⟩ | ⟨loc, hloc, hput⟩
  · have hlog : ∀ v' e' d', log (k.parser.getLabelId (cmd.toRecord.vid d)) v' e' d' =
        if v' = k.parser.getOffset (cmd.toRecord.vid d) ∧ e' = cmd.toRecord.elabel ∧ d' = d then
          log (k.parser.getLabelId (cmd.toRecord.vid d)) v' e' d' ++ []
        else log (k.parser.getLabelId (cmd.toRecord.vid d)) v' e' d' := by
      intro v' e' d'
      split
      · exact (List.append_nil _).symm
      · rfl
    refine ⟨⟨_, h.grow hone (fun hl => hl) hlog (fun entry hentry => ?_) (Nat.zero_le 1) hle hop.on hop.other
      (fun _ => ?_) hdeletable⟩, fun d' hd' size hfits l' hl' => ?_⟩
    · cases hentry
    · rw [List.append_nil]
      unfold ListOp.apply
      dsimp only
      rw [hnone]
    · have hl' : s'.labels[s'.idParser.getLabelId (cmd.toRecord.vid d')]? = some l' := hl'
      rw [hone.same.idParser] at hl' ⊢
      rw [hone.after] at hl'
      split at hl'
      · rename_i hat
        rw [← Option.some.inj hl']
        refine hfits l ?_
        rw [hat]
        exact hone.before
      · exact hfits l' hl'
  · have hfits : EndFits slot s cmd.toRecord d data.length := by
      rcases hok with hnever | ⟨-, hfits⟩
      · have hreplayed : Replayed k.parser.getOffset (opsAt k cmd.toRecord d (past d))
            (cellsAfter k.parser.getOffset (opsAt k cmd.toRecord d (past d))) := replayed_cellsAfter (h.live _ _ _ d)
        rw [← hnow] at hreplayed
        rw [← hkey] at hnever
        rw [hreplayed.absent hnever] at hloc
        cases hloc
      · exact hfits
    have hshort : (log (k.parser.getLabelId (cmd.toRecord.vid d)) (k.parser.getOffset (cmd.toRecord.vid d))
        cmd.toRecord.elabel d).length + 1 < 2 ^ 32 := by
      rcases h.room hdirected hop hroom with hsmall | hcount
      · exact hgraph.length_of_capacity ((h.graph _ l hone.before).small hsmall) _ _ _
      · exact hcount
    obtain ⟨x, hvalue, -⟩ := newestAt_some hloc
    have hlt := valueAt_lt hvalue
    rw [length_cellsOf] at hlt
    have hflag : loc < deleteFlag := by
      have hpow : (2 : Nat) ^ 32 < deleteFlag := by decide
      omega
    have hdst : loc ||| deleteFlag < 2 ^ 64 := Nat.or_lt_two_pow (Nat.lt_trans hflag (by decide)) (by decide)
    refine h.append hdirected hop hle hdst hfits hroom ?_ hdeletable hone hput
    rw [entryCell_marker hflag]
    unfold ListOp.apply
    dsimp only
    rw [hloc]

/-! ### A record -/

theorem update_both {past : List Record} :
    Function.update (Function.update (fun _ : Dir => past) .eout (past ++ [rec])) .ein
    (Function.update (fun _ : Dir => past) .eout (past ++ [rec]) .ein ++ [rec]) = fun _ => past ++ [rec] := by
  funext d
  cases d <;> rfl

theorem EdgeLists.prepareEdge {draws : GraphStore.Draws} {data : Bytes}
    (h : EdgeLists k slot undirected dtypes s log past w) (hstep : s.prepareEdge draws r = .ok (data, s')) :
    EdgeLists k slot undirected dtypes s' log past w ∧ (∀ d, FitsKept slot s s' r d) ∧
      data.length = GraphStore.edgeDataSize (s.edgeDtypes.getD r.elabel []) := by
  unfold GraphStore.prepareEdge at hstep
  obtain ⟨s1, hsrc, hstep⟩ := bind_eq_ok hstep
  obtain ⟨s2, hdst, hstep⟩ := bind_eq_ok hstep
  obtain ⟨⟨data', strings⟩, hprop, hstep⟩ := bind_eq_ok hstep
  obtain ⟨hdata, hs⟩ := Prod.mk.inj (Except.ok.inj hstep)
  obtain ⟨h1, hkept1⟩ := h.writer hsrc
  obtain ⟨h2, hkept2⟩ := h1.writer hdst
  rw [← hdata, ← hs]
  refine ⟨⟨h2.idParser, h2.localPid, h2.dtypes, h2.graph, h2.sorted, h2.bounded, h2.pastBounded, h2.cells, h2.live⟩,
    fun d size hfits => hkept2 r d size (hkept1 r d size hfits), ?_⟩
  rw [(constructEprop_length hprop).1, h2.dtypes, h.dtypes]

theorem EdgeLists.addEdge {past : List Record} {draws : GraphStore.Draws}
    (h : EdgeLists k slot undirected dtypes s log (fun _ => past) w) (hids : k.Ids)
    (hedge : EdgeRun k undirected (.addEdge cmd)) (hle : w ≤ (Record.addEdge cmd).epoch)
    (hok : RecordOk k slot past s (.addEdge cmd)) (hroom : k.ListRoom (past ++ [.addEdge cmd]))
    (hstep : s.processAddEdge draws cmd.toRecord = .ok s') :
    ∃ log', EdgeLists k slot undirected dtypes s' log' (fun _ => past ++ [.addEdge cmd])
        (Record.addEdge cmd).epoch := by
  obtain ⟨hsrc, hdst, hdirected⟩ := hedge
  have hsrcFid : k.parser.getFid cmd.toRecord.srcVid = k.pid := hsrc.2
  have hdstFid : k.parser.getFid cmd.toRecord.dstVid = k.pid := hdst.2
  unfold GraphStore.processAddEdge at hstep
  dsimp only at hstep
  rw [h.idParser, h.localPid, if_neg fun hboth => hboth.1 hsrcFid] at hstep
  obtain ⟨⟨data, s1⟩, hprepare, hstep⟩ := bind_eq_ok hstep
  obtain ⟨h1, hkept1, hdata⟩ := h.prepareEdge hprepare
  dsimp only at hstep
  rw [h1.localPid, if_neg fun hcase => hcase.2 hdstFid, if_neg fun hcase => hcase.1 hsrcFid] at hstep
  obtain ⟨s2, hout, hin⟩ := bind_eq_ok hstep
  have hfits : ∀ d, EndFits slot s1 cmd.toRecord d data.length := by
    intro d
    rw [hdata]
    exact hkept1 d _ (hok d)
  obtain ⟨⟨log2, h2⟩, hkept2⟩ :=
    @EdgeLists.putEntry k slot undirected dtypes s1 s2 log
        (fun _ => past) w .eout cmd data h1 hids hdirected hsrcFid hle
      (hfits .eout) hroom hout
  obtain ⟨⟨log3, h3⟩, -⟩ :=
    @EdgeLists.putEntry k slot undirected dtypes s2 s' log2 _ _ .ein cmd data h2 hids hdirected hdstFid (Nat.le_refl _)
      (hkept2 .ein (by decide) _ (hfits .ein)) hroom hin
  rw [update_both] at h3
  exact ⟨log3, h3⟩

theorem EdgeLists.delEdge {past : List Record} {draws : GraphStore.Draws}
    (h : EdgeLists k slot undirected dtypes s log (fun _ => past) w) (hids : k.Ids)
    (hedge : EdgeRun k undirected (.deleteEdge cmd)) (hle : w ≤ (Record.deleteEdge cmd).epoch)
    (hok : RecordOk k slot past s (.deleteEdge cmd)) (hroom : k.ListRoom (past ++ [.deleteEdge cmd]))
    (hstep : s.processDelEdge draws cmd.toRecord = .ok s') :
    ∃ log', EdgeLists k slot undirected dtypes s' log' (fun _ => past ++ [.deleteEdge cmd])
      (Record.deleteEdge cmd).epoch := by
  obtain ⟨hsrc, hdst, hdirected⟩ := hedge
  have hsrcFid : k.parser.getFid cmd.toRecord.srcVid = k.pid := hsrc.2
  have hdstFid : k.parser.getFid cmd.toRecord.dstVid = k.pid := hdst.2
  unfold GraphStore.processDelEdge at hstep
  unfold GraphStore.edgeEnd at hstep
  dsimp only at hstep
  rw [h.idParser, h.localPid, if_neg fun hboth => hboth.1 hsrcFid, if_pos hsrcFid, if_pos hdstFid] at hstep
  obtain ⟨src, hsrcEnd, hstep⟩ := bind_eq_ok hstep
  obtain ⟨dst, hdstEnd, hstep⟩ := bind_eq_ok hstep
  rw [← Except.ok.inj hsrcEnd, ← Except.ok.inj hdstEnd] at hstep
  obtain ⟨s1, hwriter, hstep⟩ := bind_eq_ok hstep
  obtain ⟨s2, hwriter', hstep⟩ := bind_eq_ok hstep
  obtain ⟨s3, hout, hin⟩ := bind_eq_ok hstep
  obtain ⟨h1, hkept1⟩ := h.writer hwriter
  obtain ⟨h2, hkept2⟩ := h1.writer hwriter'
  have hsearched : ∀ (s : GraphStore) offset, s.idParser = k.parser → ∀ x, s.holdsOffset offset x = true ↔
      k.parser.getOffset x = offset ∧ x < deleteFlag := by
    intro s offset hparser x
    unfold GraphStore.holdsOffset
    rw [hparser, decide_eq_true_iff]
  have hkept : ∀ d,
      EndFits slot s cmd.toRecord d (GraphStore.delEdgePropBytes (s.edgeDtypes.getD cmd.toRecord.elabel [])) →
      EndFits slot s2 cmd.toRecord d
        (zeros (GraphStore.delEdgePropBytes (s.edgeDtypes.getD cmd.toRecord.elabel []))).length := by
    intro d hfits
    rw [show (zeros _).length = _ from List.length_replicate]
    exact hkept2 _ _ _ (hkept1 _ _ _ hfits)
  obtain ⟨⟨log3, h3⟩, hkept3⟩ :=
    @EdgeLists.deleteEntry k slot undirected dtypes s2 s3 log
        (fun _ => past) w .eout cmd _ _ h2 hids hdirected hsrcFid hle
      ((hok .eout).imp_right fun hlast => ⟨hlast.1, hkept .eout hlast.2⟩) hroom (hsearched s2 _ h2.idParser) hout
  obtain ⟨⟨log4, h4⟩, -⟩ :=
    @EdgeLists.deleteEntry k slot undirected dtypes s3 s' log3 _ _ .ein cmd _ _ h3 hids hdirected hdstFid
        (Nat.le_refl _)
      ((hok .ein).imp_right fun hlast => ⟨hlast.1, hkept3 .ein (by decide) _ (hkept .ein hlast.2)⟩) hroom
      (hsearched s3 _ h3.idParser) hin
  rw [update_both] at h4
  exact ⟨log4, h4⟩

theorem EdgeLists.record {past : List Record} {line : GraphStore.RecordDraws × Record}
    (h : EdgeLists k slot undirected dtypes s log (fun _ => past) w) (hids : k.Ids)
    (hedge : EdgeRun k undirected line.2) (hle : w ≤ line.2.epoch) (hok : RecordOk k slot past s line.2)
    (hroom : k.ListRoom (past ++ [line.2])) (hstep : s.applyRecord line = .ok s') :
    ∃ log', EdgeLists k slot undirected dtypes s' log' (fun _ => past ++ [line.2]) line.2.epoch := by
  obtain ⟨draws, rec⟩ := line
  cases rec with
  | addEdge cmd => exact h.addEdge hids hedge hle hok hroom hstep
  | deleteEdge cmd => exact h.delEdge hids hedge hle hok hroom hstep
  | deleteVertex cmd => exact hedge.elim
  | unsupported op => cases hstep
  | bulkloadEnd epoch =>
    rw [← Except.ok.inj hstep]
    exact ⟨log, h.ignore hle fun _ _ _ _ => rfl⟩
  | addVertex cmd =>
    obtain ⟨l, l', hone, hcases⟩ := insertInnerVertex_cases hstep
    refine ⟨log, (h.keep hone fun hl => ?_).ignore hle fun _ _ _ _ => rfl⟩
    rcases hcases with ⟨-, ⟨map, rfl⟩, -⟩ | ⟨-, hinserted⟩
    · exact hl
    · rw [hinserted.graph]
      exact (hl.writer _ _).newVertex
  | updateVertex cmd =>
    rcases updateInnerVertex_cases hstep with ⟨-, rfl⟩ | ⟨-, l, l', hone, hupdated⟩
    · exact ⟨log, h.ignore hle fun _ _ _ _ => rfl⟩
    · refine ⟨log, (h.keep hone fun hl => ?_).ignore hle fun _ _ _ _ => rfl⟩
      obtain ⟨property, rfl⟩ := hupdated.rest
      exact hl

/-! ### The run -/

theorem EdgeLists.run {past : List Record} {lines : List (GraphStore.RecordDraws × Record)}
    (h : EdgeLists k slot undirected dtypes s log (fun _ => past) w) (hids : k.Ids)
    (hedges : ∀ r ∈ lines.map Prod.snd, EdgeRun k undirected r) (hlater : ∀ r ∈ lines.map Prod.snd, w ≤ r.epoch)
    (hsorted : (lines.map Prod.snd).Pairwise fun a b => a.epoch ≤ b.epoch) (hok : RecordsOk k slot past s lines)
    (hroom : k.ListRoom (past ++ lines.map Prod.snd)) (hrun : lines.foldlM GraphStore.applyRecord s = .ok s') :
    ∃ log' w', EdgeLists k slot undirected dtypes s' log' (fun _ => past ++ lines.map Prod.snd) w' := by
  induction lines generalizing s log past w with
  | nil =>
    rw [← Except.ok.inj hrun, List.map_nil, List.append_nil]
    exact ⟨log, w, h⟩
  | cons line lines ih =>
    rw [List.foldlM_cons] at hrun
    obtain ⟨s1, hstep, hrest⟩ := bind_eq_ok hrun
    rw [List.map_cons] at hedges hlater hsorted hroom ⊢
    obtain ⟨hedge, hedges⟩ := List.forall_mem_cons.mp hedges
    obtain ⟨hle, hlater⟩ := List.forall_mem_cons.mp hlater
    obtain ⟨hfirst, hsorted⟩ := List.pairwise_cons.mp hsorted
    obtain ⟨hokFirst, hokRest⟩ := hok
    have hsplit : past ++ line.2 :: lines.map Prod.snd = past ++ [line.2] ++ lines.map Prod.snd := by simp
    rw [hsplit] at hroom ⊢
    obtain ⟨log1, h1⟩ := h.record hids hedge hle hokFirst hroom.of_append hstep
    exact ih h1 hedges hfirst hsorted (hokRest s1 hstep) hroom hrest

end records

theorem edgeLists_create {c : StoreConfig} {sb : SchemaBuild} {slot : Nat → Nat}
    (hcap : ∀ i, (c.label i).blockSize ≤ 2 ^ 64) :
    EdgeLists (partitionOf c sb) slot (fun l => c.edgeIsUndirected.getD l false) (GraphStore.create c sb).edgeDtypes
      (GraphStore.create c sb) (fun _ => emptyLog) (fun _ => []) 0 := by
  refine ⟨rfl, rfl, rfl, fun i l hl => ?_, fun _ _ _ _ => .nil, fun i v e d entry hentry => (by cases hentry),
    fun d r hr => (by cases hr), fun _ _ _ _ _ _ => rfl, fun i v e d before x after heq => ?_⟩
  · unfold GraphStore.create at hl
    dsimp only at hl
    rw [List.getElem?_map, List.getElem?_zipIdx] at hl
    obtain ⟨x, hx, rfl⟩ := Option.map_eq_some_iff.mp hl
    obtain ⟨layout, -, rfl⟩ := Option.map_eq_some_iff.mp hx
    rw [Nat.zero_add]
    refine ⟨⟨_, create_inv _ _ (hcap i)⟩, fun l => rfl, fun hsmall => ?_⟩
    simp only [LabelStore.create, SegGraph.create, BlockManager.create_eq]
    exact hsmall i
  · cases before <;> cases heq

end Gart.Store
