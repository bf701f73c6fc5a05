import Gart.Store.EdgeDeleteRun

/-!
# Edges that are added and deleted

A reader finds an inner vertex in a list of another as often as the records of the edges between the two leave copies
of the edge, as long as no deletion comes upon an edge that is deleted already.
-/

namespace Gart.Fragment
open Gart.ByteMemory Gart.Outcome Gart.Store Gart.Seggraph Gart.MarkerLog

/-! ### What is read -/

/-- How often a reader at an epoch comes upon an inner vertex in a list of another. -/
def occurrences (s : GraphStore) (l : LabelStore) (vid other elabel : Nat) (d : Dir) (e : Nat) : Except Fault Nat := do
  let values ← readAdjList l.graph (s.idParser.getOffset vid) elabel d
    (GraphStore.edgeDataSize (s.edgeDtypes.getD elabel [])) e
  return (values.map Prod.fst).count (innerLid s.idParser other)

section reads
variable {k : Partition} {slot : Nat → Nat} {undirected : Nat → Bool} {dtypes : List (List PropertyDataType)}
  {s : GraphStore} {log : Nat → Log} {past : List Record} {w vid other elabel src dst t : Nat} {d : Dir}
  {l : LabelStore}
  {r : Record}

theorem edgeLists_reads (h : EdgeLists k slot undirected dtypes s log (fun _ => past) w)
    (hsorted : past.Pairwise fun a b => a.epoch ≤ b.epoch) (hdirected : undirected elabel = false)
    (hslot : GraphStore.edgeDataSize (dtypes.getD elabel []) ≤ slot elabel)
    (hl : s.labels[k.parser.getLabelId vid]? = some l) :
    occurrences s l vid other elabel d t = .ok (expectedCount (innerLid k.parser other)
      (opsOn k (k.parser.getLabelId vid) (k.parser.getOffset vid) elabel d (upTo t past))) := by
  obtain ⟨own, hgraph⟩ := (h.graph _ l hl).graph
  obtain ⟨more, hprefix⟩ := upTo_prefix (t := t) hsorted
  have hlive := h.live (k.parser.getLabelId vid) (k.parser.getOffset vid) elabel d
  rw [← hprefix, opsOn_append] at hlive
  have hreplayed := replayed_cellsAfter hlive.of_append
  have hcells := h.cells (k.parser.getLabelId vid) (k.parser.getOffset vid) elabel d hdirected t
  rw [← hcells] at hreplayed
  have hmarked := hreplayed.marked
  rw [length_cellsOf] at hmarked
  obtain ⟨values, hvalues, hcontent⟩ := (readAdjList_content hgraph (k.parser.getOffset vid) elabel d hslot
    (fun hfalse => hfalse.elim) (h.sorted _ _ _ _) hmarked).exists_ok
  unfold occurrences
  rw [h.idParser, h.dtypes, hvalues]
  show Except.ok _ = Except.ok _
  rw [hcontent, hreplayed.count]

/-! ### What is expected -/

theorem innerLid_inj (hids : k.Ids) (hvid : InnerGid k vid) (hother : InnerGid k other) :
    innerLid k.parser vid = innerLid k.parser other ↔ vid = other := by
  refine ⟨fun heq => hids.inner vid other hvid hother ?_ ?_, fun heq => congrArg _ heq⟩
  · rw [← hids.label, heq, hids.label]
  · rw [← hids.offset, heq, hids.offset]

theorem onVertex_iff (hids : k.Ids) (hvid : InnerGid k vid) {r : GraphStore.EdgeRecord} (hr : InnerGid k (r.vid d)) :
    OnVertex k (k.parser.getLabelId vid) (k.parser.getOffset vid) elabel d r ↔ r.vid d = vid ∧ r.elabel = elabel := by
  constructor
  · intro hon
    exact ⟨hids.inner _ _ hr hvid hon.2.1 hon.2.2.1, hon.2.2.2⟩
  · rintro ⟨heq, helabel⟩
    exact ⟨hr.2, congrArg _ heq, congrArg _ heq, helabel⟩

theorem ends_inner {r : GraphStore.EdgeRecord} (hsrc : InnerGid k r.srcVid) (hdst : InnerGid k r.dstVid) :
    InnerGid k (r.vid d) ∧ InnerGid k (r.other d) := by
  cases d with
  | eout => exact ⟨hsrc, hdst⟩
  | ein => exact ⟨hdst, hsrc⟩

theorem expectedCount_edge {records : List Record} {edge : GraphStore.EdgeRecord} {op : ListOp Nat} {change : Nat → Nat}
    (hids : k.Ids) (hvid : InnerGid k vid) (hother : InnerGid k other) (hsrc : InnerGid k edge.srcVid)
    (hdst : InnerGid k edge.dstVid)
    (hop : opOn k (k.parser.getLabelId vid) (k.parser.getOffset vid) elabel d r =
      if OnVertex k (k.parser.getLabelId vid) (k.parser.getOffset vid) elabel d edge then some op else none)
    (hcount : ∀ n, countStep (innerLid k.parser other) n op =
      if innerLid k.parser (edge.other d) = innerLid k.parser other then change n else n) :
    expectedCount (innerLid k.parser other)
        (opsOn k (k.parser.getLabelId vid) (k.parser.getOffset vid) elabel d (records ++ [r])) =
      if edge.vid d = vid ∧ edge.other d = other ∧ edge.elabel = elabel then
        change (expectedCount (innerLid k.parser other)
          (opsOn k (k.parser.getLabelId vid) (k.parser.getOffset vid) elabel d records))
      else expectedCount (innerLid k.parser other)
        (opsOn k (k.parser.getLabelId vid) (k.parser.getOffset vid) elabel d records) := by
  have hends := @ends_inner k d edge hsrc hdst
  by_cases hon : OnVertex k (k.parser.getLabelId vid) (k.parser.getOffset vid) elabel d edge
  · have hat := (onVertex_iff hids hvid hends.1).mp hon
    rw [if_pos hon] at hop
    rw [opsOn_append_some hop, expectedCount_append, hcount]
    refine if_congr ?_ rfl rfl
    rw [innerLid_inj hids hends.2 hother]
    exact ⟨fun heq => ⟨hat.1, heq, hat.2⟩, fun hall => hall.2.1⟩
  · rw [if_neg hon] at hop
    rw [opsOn_append_none hop, if_neg fun hall => hon ((onVertex_iff hids hvid hends.1).mpr ⟨hall.1, hall.2.2⟩)]

theorem expectedCount_eq_copies (hids : k.Ids) (hvid : InnerGid k vid) (hother : InnerGid k other)
    (hpair : ∀ edge : GraphStore.EdgeRecord, edge.vid d = vid ∧ edge.other d = other ↔
      edge.srcVid = src ∧ edge.dstVid = dst)
    (hedges : ∀ r ∈ past, EdgeRun k undirected r) :
    expectedCount (innerLid k.parser other)
        (opsOn k (k.parser.getLabelId vid) (k.parser.getOffset vid) elabel d (upTo t past)) =
      copies t src dst elabel past := by
  induction past using List.reverseRecOn with
  | nil => rfl
  | append_singleton past r ih =>
    have hih := ih fun r hr => hedges r (List.mem_append_left _ hr)
    have hedge := hedges r (List.mem_append_right _ List.mem_cons_self)
    have hcopies : copies t src dst elabel (past ++ [r]) =
        copiesStep t src dst elabel (copies t src dst elabel past) r := by
      unfold copies
      rw [List.foldl_append]
      rfl
    have hcond : ∀ edge : GraphStore.EdgeRecord, (edge.vid d = vid ∧ edge.other d = other ∧ edge.elabel = elabel) ↔
        edge.srcVid = src ∧ edge.dstVid = dst ∧ edge.elabel = elabel := by
      intro edge
      rw [← and_assoc, hpair, and_assoc]
    rw [hcopies]
    by_cases ht : r.epoch ≤ t
    · rw [upTo_append_of_le ht]
      cases r with
      | addEdge cmd =>
        rw [expectedCount_edge hids hvid hother (show InnerGid k cmd.toRecord.srcVid from hedge.1) hedge.2.1 rfl
            fun _ => rfl, hih]
        refine if_congr ((hcond cmd.toRecord).trans ?_) rfl rfl
        exact ⟨fun hall => ⟨hall.1, hall.2.1, hall.2.2, ht⟩, fun hall => ⟨hall.1, hall.2.1, hall.2.2.1⟩⟩
      | deleteEdge cmd =>
        rw [expectedCount_edge hids hvid hother (show InnerGid k cmd.toRecord.srcVid from hedge.1) hedge.2.1 rfl
            fun _ => rfl, hih]
        refine if_congr ((hcond cmd.toRecord).trans ?_) rfl rfl
        exact ⟨fun hall => ⟨hall.1, hall.2.1, hall.2.2, ht⟩, fun hall => ⟨hall.1, hall.2.1, hall.2.2.1⟩⟩
      | _ =>
        rw [opsOn_append_none rfl, hih]
        rfl
    · rw [upTo_append_of_not ht, hih]
      cases r with
      | addEdge cmd => exact (if_neg fun hall => ht hall.2.2.2).symm
      | deleteEdge cmd => exact (if_neg fun hall => ht hall.2.2.2).symm
      | _ => rfl

end reads

/-- In a run that adds and deletes edges between the inner vertices of a partition, a reader finds as many edges from
one vertex to another as a multiset has to which the records add and from which they delete, in the lists of both
ends. -/
theorem occurrences_eq_copies {c : StoreConfig} {sb : SchemaBuild} (slot : Nat → Nat)
    (lines : List (GraphStore.RecordDraws × Record)) {s : GraphStore}
    (hcap : ∀ i, (c.label i).blockSize ≤ 2 ^ 64) (hparts : c.totalPartitions < 2 ^ 31)
    (hslot : ∀ elabel, GraphStore.edgeDataSize ((GraphStore.create c sb).edgeDtypes.getD elabel []) ≤ slot elabel)
    (hedges : ∀ r ∈ lines.map Prod.snd, EdgeRun (partitionOf c sb) (fun l => c.edgeIsUndirected.getD l false) r)
    (hsorted : (lines.map Prod.snd).Pairwise fun a b => a.epoch ≤ b.epoch)
    (hroom : (partitionOf c sb).ListRoom (lines.map Prod.snd))
    (hok : RecordsOk (partitionOf c sb) slot [] (GraphStore.create c sb) lines)
    (hrun : lines.foldlM GraphStore.applyRecord (GraphStore.create c sb) = .ok s)
    (e src dst elabel : Nat) (hsrc : InnerGid (partitionOf c sb) src) (hdst : InnerGid (partitionOf c sb) dst)
    (hdirected : c.edgeIsUndirected.getD elabel false = false) :
    (∀ l ∈ s.labels[s.idParser.getLabelId src]?,
      occurrences s l src dst elabel .eout e = .ok (copies e src dst elabel (lines.map Prod.snd))) ∧
    ∀ l ∈ s.labels[s.idParser.getLabelId dst]?,
      occurrences s l dst src elabel .ein e = .ok (copies e src dst elabel (lines.map Prod.snd)) := by
  have hids := @partitionOf_ids c sb hparts
  have hcreate := @edgeLists_create c sb slot hcap
  obtain ⟨log, w, hlists⟩ := hcreate.run hids hedges (fun _ _ => Nat.zero_le _) hsorted hok hroom hrun
  rw [List.nil_append] at hlists
  rw [hlists.idParser]
  refine ⟨fun l hl => ?_, fun l hl => ?_⟩
  · rw [edgeLists_reads hlists hsorted hdirected (hslot elabel) hl,
      expectedCount_eq_copies hids hsrc hdst (fun _ => Iff.rfl) hedges]
  · rw [edgeLists_reads hlists hsorted hdirected (hslot elabel) hl,
      expectedCount_eq_copies hids hdst hsrc (fun _ => and_comm) hedges]

/-- Edges in both directions between two vertices, one that is not there is deleted, and one is deleted and added
anew. -/
def addedAnew : List Record :=
  [.addVertex { writeEpoch := 1, vid := 0, externalId := "a", props := [] },
    .addVertex { writeEpoch := 1, vid := 2, externalId := "b", props := [] },
    .addEdge { writeEpoch := 1, elabel := 0, srcVid := 0, dstVid := 2, srcExternalId := "a", dstExternalId := "b"
               eprop := [] },
    .addEdge { writeEpoch := 1, elabel := 0, srcVid := 2, dstVid := 0, srcExternalId := "b", dstExternalId := "a"
               eprop := [] },
    .deleteEdge { writeEpoch := 2, elabel := 0, srcVid := 0, dstVid := 0, srcExternalId := "a", dstExternalId := "a"
                  eprop := [] },
    .deleteEdge { writeEpoch := 2, elabel := 0, srcVid := 0, dstVid := 2, srcExternalId := "a", dstExternalId := "b"
                  eprop := [] },
    .addEdge { writeEpoch := 3, elabel := 0, srcVid := 0, dstVid := 2, srcExternalId := "a", dstExternalId := "b"
               eprop := [] }]

/-- The slots of a label of edges without properties have the size that a deletion gives them. -/
def markerSlot (_elabel : Nat) : Nat := 8

theorem occurrences_eq_copies_addedAnew : ∃ sb s, initGraphSchema oneRelation = .ok sb ∧
    (tableLines addedAnew).foldlM GraphStore.applyRecord (GraphStore.create (ofTwo 0) sb) = .ok s ∧
    (∀ l ∈ s.labels[s.idParser.getLabelId 0]?, occurrences s l 0 2 0 .eout 3 = .ok 1) ∧
    ∀ l ∈ s.labels[s.idParser.getLabelId 2]?, occurrences s l 2 0 0 .ein 3 = .ok 1 := by
  have hruns : ((initGraphSchema oneRelation).toOption.bind fun sb =>
      ((tableLines addedAnew).foldlM GraphStore.applyRecord (GraphStore.create (ofTwo 0) sb)).toOption.map fun _ =>
        decide (RecordsOk (partitionOf (ofTwo 0) sb) markerSlot [] (GraphStore.create (ofTwo 0) sb)
            (tableLines addedAnew) ∧
          (∀ r ∈ (tableLines addedAnew).map Prod.snd,
            EdgeRun (partitionOf (ofTwo 0) sb) (fun l => (ofTwo 0).edgeIsUndirected.getD l false) r) ∧
          (GraphStore.create (ofTwo 0) sb).edgeDtypes = [[]])) = some true := by
    decide +kernel
  obtain ⟨sb, hsb, hruns⟩ := Option.bind_eq_some_iff.mp hruns
  obtain ⟨s, hs, hruns⟩ := Option.map_eq_some_iff.mp hruns
  obtain ⟨hok, hedges, hdtypes⟩ := of_decide_eq_true hruns
  have hslot : ∀ elabel, GraphStore.edgeDataSize ((GraphStore.create (ofTwo 0) sb).edgeDtypes.getD elabel []) ≤
      markerSlot elabel := by
    intro elabel
    rw [hdtypes]
    have hnone : [([] : List PropertyDataType)].getD elabel [] = [] := by
      cases elabel <;> rfl
    rw [hnone]
    exact (by decide : GraphStore.edgeDataSize [] ≤ 8)
  refine ⟨sb, s, ok_of_toOption hsb, ok_of_toOption hs, ?_⟩
  exact occurrences_eq_copies markerSlot (tableLines addedAnew) (fun i => Nat.pow_le_pow_right (by decide) (by decide))
    (by decide) hslot hedges (by decide) (Or.inl fun i => Nat.pow_le_pow_right (by decide) (by decide)) hok
    (ok_of_toOption hs) 3 0 2 0 ⟨by decide, (by decide : (IdParser.init 2).getFid 0 = 0)⟩
    ⟨by decide, (by decide : (IdParser.init 2).getFid 2 = 0)⟩ rfl

def bothDeleted : List Record :=
  [.addVertex { writeEpoch := 1, vid := 0, externalId := "a", props := [] },
    .addVertex { writeEpoch := 1, vid := 2, externalId := "b", props := [] },
    .addEdge { writeEpoch := 1, elabel := 0, srcVid := 0, dstVid := 2, srcExternalId := "a", dstExternalId := "b"
               eprop := [] },
    .addEdge { writeEpoch := 1, elabel := 0, srcVid := 0, dstVid := 2, srcExternalId := "a", dstExternalId := "b"
               eprop := [] },
    .deleteEdge { writeEpoch := 2, elabel := 0, srcVid := 0, dstVid := 2, srcExternalId := "a", dstExternalId := "b"
                  eprop := [] },
    .deleteEdge { writeEpoch := 2, elabel := 0, srcVid := 0, dstVid := 2, srcExternalId := "a", dstExternalId := "b"
                  eprop := [] }]

/-- One of the copies is still read. -/
theorem second_delete_lost : ∃ sb s l, initGraphSchema oneRelation = .ok sb ∧
    (tableLines bothDeleted).foldlM GraphStore.applyRecord (GraphStore.create (ofTwo 0) sb) = .ok s ∧
    s.labels[s.idParser.getLabelId 0]? = some l ∧
    (∀ r ∈ bothDeleted, EdgeRun (partitionOf (ofTwo 0) sb) (fun l => (ofTwo 0).edgeIsUndirected.getD l false) r) ∧
    (bothDeleted.Pairwise fun a b => a.epoch ≤ b.epoch) ∧
    ¬ occurrences s l 0 2 0 .eout 2 = .ok (copies 2 0 2 0 bothDeleted) := by
  have hruns : ((initGraphSchema oneRelation).toOption.bind fun sb =>
      ((tableLines bothDeleted).foldlM GraphStore.applyRecord (GraphStore.create (ofTwo 0) sb)).toOption.bind fun s =>
      (s.labels[s.idParser.getLabelId 0]?).map fun l => decide ((occurrences s l 0 2 0 .eout 2).toOption = some 1 ∧
        ∀ r ∈ bothDeleted, EdgeRun (partitionOf (ofTwo 0) sb) (fun l => (ofTwo 0).edgeIsUndirected.getD l false) r)) =
      some true := by
    decide +kernel
  obtain ⟨sb, hsb, hruns⟩ := Option.bind_eq_some_iff.mp hruns
  obtain ⟨s, hs, hruns⟩ := Option.bind_eq_some_iff.mp hruns
  obtain ⟨l, hl, hruns⟩ := Option.map_eq_some_iff.mp hruns
  obtain ⟨hone, hedges⟩ := of_decide_eq_true hruns
  refine ⟨sb, s, l, ok_of_toOption hsb, ok_of_toOption hs, hl, hedges, by decide, fun hread => ?_⟩
  rw [hread] at hone
  exact absurd hone (by decide)

end Gart.Fragment
