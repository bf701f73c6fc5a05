import Gart.Fragment.Completeness
import Gart.Store.TableSnapshot

/-!
# The vertices of an epoch

A fragment reads the vertex table of a label with the bounds that were published at its epoch.
-/

namespace Gart.Fragment
open Gart.Outcome Gart.MarkerLog Gart.Store

/-- `update_blob` of the bounds of a label -/
def vtableMeta (l : LabelStore) : VTableMeta :=
  { max := l.vtable.size
    maxInner := l.graph.vertexId
    minOuter := l.vtable.size - l.ovGraph.vertexId
    maxInnerLocation := l.graph.vertexId + l.deletedInner
    minOuterLocation := l.vtable.size - (l.ovGraph.vertexId + l.deletedOuter) }

def upTo (epoch : Nat) (log : List Record) : List Record := log.filter fun r => r.epoch ≤ epoch

/-- An inner vertex that is inserted up to an epoch and not deleted. -/
def InnerAt (parser : IdParser) (pid vlabel epoch : Nat) (log : List Record) (gid : Nat) : Prop :=
  gid ∈ arriving parser pid vlabel (gidsOf (upTo epoch log)) ∧ gid ∉ deletedOf (upTo epoch log)

def OuterAt (parser : IdParser) (pid vlabel epoch : Nat) (log : List Record) (gid : Nat) : Prop :=
  gid ∈ metBy parser pid (upTo epoch log) ∧ parser.getLabelId gid = vlabel ∧ gid ∉ deletedOf (upTo epoch log)

/-- The iterators over a label with the bounds of `l` and the table of `l'` give the vertices of an epoch, each once. -/
def ReadsTable (parser : IdParser) (pid vlabel epoch : Nat) (log : List Record) (l l' : LabelStore) : Prop :=
  ∃ inner outer innerLids outerLids : List Nat,
    inner.Nodup ∧ (∀ gid, gid ∈ inner ↔ InnerAt parser pid vlabel epoch log gid) ∧
    outer.Nodup ∧ (∀ gid, gid ∈ outer ↔ OuterAt parser pid vlabel epoch log gid) ∧
    innerLids.Nodup ∧ List.Forall₂ (fun gid lid => lid = innerLidOf parser vlabel gid) inner innerLids ∧
    outerLids.Nodup ∧ List.Forall₂ (fun gid lid => l.ovg2l gid = some lid) outer outerLids ∧
    innerVertices (vtableMeta l) l'.vtable.table l'.vtable.size = some innerLids ∧
    outerVertices (vtableMeta l) l'.vtable.table l'.vtable.size = some outerLids ∧
    vertices (vtableMeta l) l'.vtable.table l'.vtable.size = some (innerLids ++ outerLids)

section reads
variable {parser : IdParser} {pid vlabel size epoch : Nat} {log : List Record} {l l' : LabelStore}
  {inn out inn' out' : List (Cell Nat)} {outer outer' : List Nat} {log' : List Record}

theorem tableInv_create (blank : Nat → Nat) {t : TableView} (ht : t = {
      vtable := VTable.create blank size, keyLid := fun _ => none, ovg2l := fun _ => none, ovl2g := fun _ => 0
      deletedInner := 0, deletedOuter := 0, inner := 0, outer := 0 }) (hlids : LidsOk parser vlabel size) :
    TableInv parser pid vlabel size [] t [] [] [] := by
  rw [ht]
  refine ⟨rfl, rfl, rfl, Nat.zero_le _, rfl, rfl, ?_, ?_, holdsEach_nil, holdsEach_nil, ?_, rfl, ?_, ?_⟩
  · exact rangeOk_of_words (fun _ => hlids.small _) wellMarked_nil fun p cell hp => by cases hp
  · exact rangeOk_of_words (fun _ => hlids.small _) wellMarked_nil fun p cell hp => by cases hp
  · exact ⟨List.nodup_nil, fun gid ov => by simp, fun gid lid => by simp⟩
  · intro gid hgid
    cases hgid
  · intro gid
    constructor
    · intro hmem
      cases hmem
    · rintro ⟨hmem, -⟩
      cases hmem

theorem readsTable_of_inv (hlids : LidsOk parser vlabel size)
    (hoffsets : ((arriving parser pid vlabel (gidsOf log)).map parser.getOffset).Nodup)
    (h : TableInv parser pid vlabel size log l.tableView inn out outer)
    (h' : TableInv parser pid vlabel size log' l'.tableView inn' out' outer') (hinn : inn <+: inn')
    (hout : out <+: out') (hup : upTo epoch log' = log) :
    ReadsTable parser pid vlabel epoch log' l l' := by
  have hroom := h.room
  have hsize : l'.vtable.size = size := h'.sameSize
  have hinnerRange := h'.innerRange.of_prefix hinn h.innerLog.marked
  have houterRange := h'.outerRange.of_prefix hout h.outerLog.marked
  have hinnerLocation : (vtableMeta l).maxInnerLocation = inn.length := h.innerUse
  have houterLocation : (vtableMeta l).minOuterLocation + out.length = size := by
    show l.vtable.size - (l.ovGraph.vertexId + l.deletedOuter) + out.length = size
    have huse : l.ovGraph.vertexId + l.deletedOuter = out.length := h.outerUse
    have hold : l.vtable.size = size := h.sameSize
    omega
  have hov : ∀ ov ∈ content out, ov < outer.length := fun ov hmem =>
    List.mem_range.mp ((h.outerLog.mem ov).mp hmem).1
  have hat : ∀ ov ∈ content out, outer[ov]? = some (outer.getD ov 0) := by
    intro ov hmem
    rw [List.getD_eq_getElem?_getD, List.getElem?_eq_getElem (hov ov hmem)]
    rfl
  refine ⟨content inn, (content out).map fun ov => outer.getD ov 0, (content inn).map (innerLidOf parser vlabel),
    (content out).map (outerLidOf parser vlabel), h.innerLog.contentNodup, fun gid => ?_, ?_, fun gid => ?_, ?_, ?_, ?_,
    ?_, ?_, ?_, ?_⟩
  · rw [h.innerLog.mem]
    unfold InnerAt
    rw [hup]
  · refine List.Nodup.map_on (fun ov hmem ov' hmem' heq => ?_) h.outerLog.contentNodup
    refine (List.getElem?_inj (hov ov hmem) h.known.nodup).mp ?_
    rw [hat ov hmem, hat ov' hmem', heq]
  · unfold OuterAt
    rw [hup, List.mem_map]
    constructor
    · rintro ⟨ov, hmem, rfl⟩
      have hget := hat ov hmem
      obtain ⟨hmet, hlabel⟩ := (h.met _).mp (List.mem_of_getElem? hget)
      exact ⟨hmet, hlabel, fun hgone => ((h.outerLog.mem ov).mp hmem).2 ⟨_, hget, hgone⟩⟩
    · rintro ⟨hmet, hlabel, hlive⟩
      obtain ⟨ov, hget⟩ := List.mem_iff_getElem?.mp ((h.met gid).mpr ⟨hmet, hlabel⟩)
      have hlt := (List.getElem?_eq_some_iff.mp hget).1
      refine ⟨ov, (h.outerLog.mem ov).mpr ⟨List.mem_range.mpr hlt, ?_⟩, ?_⟩
      · rintro ⟨gid', hget', hgone⟩
        rw [hget] at hget'
        exact hlive (Option.some.inj hget' ▸ hgone)
      · rw [List.getD_eq_getElem?_getD, hget]
        rfl
  · refine List.Nodup.map_on (fun gid hmem gid' hmem' heq => ?_) h.innerLog.contentNodup
    have hsame := congrArg parser.getOffset heq
    unfold innerLidOf at hsame
    rw [hlids.offset, hlids.offset] at hsame
    exact List.inj_on_of_nodup_map hoffsets ((h.innerLog.mem gid).mp hmem).1 ((h.innerLog.mem gid').mp hmem').1 hsame
  · exact List.forall₂_map_right_iff.mpr (List.forall₂_same.mpr fun gid _ => rfl)
  · refine List.Nodup.map_on (fun ov hmem ov' hmem' heq => ?_) h.outerLog.contentNodup
    have huse := h.outerUse
    have hcount := h.count
    have hlt := hov ov hmem
    have hlt' := hov ov' hmem'
    exact hlids.outer ov (by omega) ov' (by omega) heq
  · refine List.forall₂_map_left_iff.mpr (List.forall₂_map_right_iff.mpr (List.forall₂_same.mpr fun ov hmem => ?_))
    exact (h.known.ovg2l _ _).mpr ⟨ov, hat ov hmem, rfl⟩
  · rw [hsize]
    exact innerVertices_spec hinnerRange (by omega) hinnerLocation
  · rw [hsize]
    exact outerVertices_spec houterRange houterLocation
  · rw [hsize]
    exact allVertices_spec hinnerRange houterRange hroom hinnerLocation houterLocation

end reads

theorem upTo_append {epoch : Nat} {log later : List Record} (hold : ∀ r ∈ log, r.epoch ≤ epoch)
    (hlater : ∀ r ∈ later, epoch < r.epoch) : upTo epoch (log ++ later) = log := by
  unfold upTo
  rw [List.filter_append, List.filter_eq_self.mpr fun r hr => decide_eq_true (hold r hr),
    List.filter_eq_nil_iff.mpr fun r hr => by simpa using hlater r hr, List.append_nil]

theorem create_tableView {c : StoreConfig} {sb : SchemaBuild} {vlabel : Nat} {l : LabelStore}
    (h : (GraphStore.create c sb).labels[vlabel]? = some l) : l.tableView = {
      vtable := VTable.create (c.label vlabel).blankTable
        ((c.label vlabel).vertexCapacity + (c.label vlabel).ovVertexCapacity)
      keyLid := fun _ => none, ovg2l := fun _ => none, ovl2g := fun _ => 0
      deletedInner := 0, deletedOuter := 0, inner := 0, outer := 0 } := by
  unfold GraphStore.create at h
  dsimp only at h
  rw [List.getElem?_map, List.getElem?_zipIdx] at h
  obtain ⟨entry, hentry, rfl⟩ := Option.map_eq_some_iff.mp h
  obtain ⟨layout, -, rfl⟩ := Option.map_eq_some_iff.mp hentry
  rw [Nat.zero_add]
  rfl

/-- The bounds that are published behind the records of an epoch read the vertices of the epoch from the table, also
when the store has applied later records. -/
theorem readsTable_published (c : StoreConfig) (sb : SchemaBuild)
    (lines later : List (GraphStore.RecordDraws × Record)) (epoch vlabel : Nat) (s s' : GraphStore) (l l' : LabelStore)
    (hparts : c.totalPartitions < 2 ^ 31)
    (hsize : (c.label vlabel).vertexCapacity + (c.label vlabel).ovVertexCapacity ≤
      2 ^ (IdParser.init c.totalPartitions).offsetWidth)
    (honce : OncePerVertex (IdParser.init c.totalPartitions) c.localPid ((lines ++ later).map Prod.snd))
    (hlines : ∀ r ∈ lines, r.2.epoch ≤ epoch) (hlater : ∀ r ∈ later, epoch < r.2.epoch)
    (hrun : lines.foldlM GraphStore.applyRecord (GraphStore.create c sb) = .ok s)
    (hmore : later.foldlM GraphStore.applyRecord s = .ok s')
    (hl : s.labels[vlabel]? = some l) (hl' : s'.labels[vlabel]? = some l')
    (hfits : l'.tableView.use ≤ (c.label vlabel).vertexCapacity + (c.label vlabel).ovVertexCapacity) :
    ReadsTable (IdParser.init c.totalPartitions) c.localPid vlabel epoch ((lines ++ later).map Prod.snd) l l' := by
  have hlids := @lidsOk_init _ vlabel _ hparts hsize
  have h1 := applyRecords_tables hrun
  have h2 := applyRecords_tables hmore
  obtain ⟨l0, hl0, hfirst⟩ := h1.label vlabel l hl
  obtain ⟨l1, hl1, hsecond⟩ := h2.label vlabel l' hl'
  have hsame : l1 = l := Option.some.inj (hl1.symm.trans hl)
  rw [hsame] at hsecond
  rw [h1.same.idParser, h1.same.localPid] at hsecond
  rw [List.map_append] at honce ⊢
  have hlog := honce.of_append
  obtain ⟨inn, out, outer, hinv, -, -, -⟩ := (tableInv_create _ (create_tableView hl0) hlids).run hlids hlog hfirst
    (Nat.le_trans (use_le_run hsecond) hfits)
  obtain ⟨inn', out', outer', hinv', hinn, hout, -⟩ := hinv.run hlids honce hsecond hfits
  refine readsTable_of_inv hlids ?_ hinv hinv' hinn hout (upTo_append (fun r hr => ?_) fun r hr => ?_)
  · exact hlog.inserted vlabel
  · obtain ⟨line, hline, rfl⟩ := List.mem_map.mp hr
    exact hlines line hline
  · obtain ⟨line, hline, rfl⟩ := List.mem_map.mp hr
    exact hlater line hline

def noRecycling : GraphStore.RecordDraws := ⟨⟨false, false, false⟩, ⟨false, fun _ _ _ => false⟩⟩

def tableLines (log : List Record) : List (GraphStore.RecordDraws × Record) := log.map fun r => (noRecycling, r)

def metLog : List Record :=
  [.addVertex { writeEpoch := 1, vid := 0, externalId := "a", props := [] },
    .addVertex { writeEpoch := 1, vid := 2, externalId := "b", props := [] },
    .addEdge { writeEpoch := 1, elabel := 0, srcVid := 0, dstVid := 1, srcExternalId := "a", dstExternalId := "c"
               eprop := [] }]

def goneLog : List Record :=
  [.deleteVertex { writeEpoch := 2, vid := 2, externalId := "b", props := [] },
    .deleteVertex { writeEpoch := 2, vid := 1, externalId := "c", props := [] }]

theorem readsTable_published_goneLog : ∃ sb s s' l l', initGraphSchema oneRelation = .ok sb ∧
    (tableLines metLog).foldlM GraphStore.applyRecord (GraphStore.create (ofTwo 0) sb) = .ok s ∧
    (tableLines goneLog).foldlM GraphStore.applyRecord s = .ok s' ∧ s.labels[0]? = some l ∧ s'.labels[0]? = some l' ∧
    ReadsTable (IdParser.init 2) 0 0 1 (metLog ++ goneLog) l l' := by
  have hruns : ((initGraphSchema oneRelation).toOption.bind fun sb =>
      ((tableLines metLog).foldlM GraphStore.applyRecord (GraphStore.create (ofTwo 0) sb)).toOption.bind fun s =>
      ((tableLines goneLog).foldlM GraphStore.applyRecord s).toOption.bind fun s' =>
      (s.labels[0]?).bind fun _ => (s'.labels[0]?).map fun l' => decide (l'.tableView.use ≤ 8)) = some true := by
    decide +kernel
  obtain ⟨sb, hsb, hruns⟩ := Option.bind_eq_some_iff.mp hruns
  obtain ⟨s, hs, hruns⟩ := Option.bind_eq_some_iff.mp hruns
  obtain ⟨s', hs', hruns⟩ := Option.bind_eq_some_iff.mp hruns
  obtain ⟨l, hl, hruns⟩ := Option.bind_eq_some_iff.mp hruns
  obtain ⟨l', hl', hruns⟩ := Option.map_eq_some_iff.mp hruns
  have honce : OncePerVertex (IdParser.init 2) 0 (metLog ++ goneLog) := by
    constructor
    · intro vlabel
      by_cases hlabel : vlabel = 0
      · rw [hlabel]
        decide
      · have hnone : arriving (IdParser.init 2) 0 vlabel (gidsOf (metLog ++ goneLog)) = [] := by
          refine List.eq_nil_iff_forall_not_mem.mpr fun gid hgid => hlabel ?_
          obtain ⟨hmem, -, hof⟩ := mem_arriving.mp hgid
          have hzero : ∀ gid ∈ gidsOf (metLog ++ goneLog), (IdParser.init 2).getLabelId gid = 0 := by decide
          rw [← hof, hzero gid hmem]
        rw [hnone]
        exact List.nodup_nil
    · intro before cmd after hsplit
      match before, hsplit with
      | [_, _, _], hsplit =>
        cases hsplit
        decide
      | [_, _, _, _], hsplit =>
        cases hsplit
        decide
      | [], hsplit => cases hsplit
      | [_], hsplit => cases hsplit
      | [_, _], hsplit => cases hsplit
      | _ :: _ :: _ :: _ :: _ :: before, hsplit => simp [metLog, goneLog] at hsplit
  refine ⟨sb, s, s', l, l', ok_of_toOption hsb, ok_of_toOption hs, ok_of_toOption hs', hl, hl', ?_⟩
  exact readsTable_published (ofTwo 0) sb (tableLines metLog) (tableLines goneLog) 1 0 s s' l l' (by decide) (by decide)
    honce (by decide) (by decide) (ok_of_toOption hs) (ok_of_toOption hs') hl hl' (of_decide_eq_true hruns)

/-- Edges to two outer vertices, which are deleted; the second of them twice. -/
def deletedTwice : List Record :=
  [.addVertex { writeEpoch := 1, vid := 0, externalId := "a", props := [] },
    .addVertex { writeEpoch := 1, vid := 2, externalId := "b", props := [] },
    .addEdge { writeEpoch := 1, elabel := 0, srcVid := 0, dstVid := 1, srcExternalId := "a", dstExternalId := "c"
               eprop := [] },
    .addEdge { writeEpoch := 1, elabel := 0, srcVid := 2, dstVid := 3, srcExternalId := "b", dstExternalId := "d"
               eprop := [] },
    .deleteVertex { writeEpoch := 1, vid := 1, externalId := "c", props := [] },
    .deleteVertex { writeEpoch := 1, vid := 3, externalId := "d", props := [] },
    .deleteVertex { writeEpoch := 1, vid := 3, externalId := "d", props := [] }]

def metDeleted : List Record :=
  [.addVertex { writeEpoch := 1, vid := 0, externalId := "a", props := [] },
    .deleteVertex { writeEpoch := 1, vid := 1, externalId := "b", props := [] },
    .addEdge { writeEpoch := 1, elabel := 0, srcVid := 0, dstVid := 1, srcExternalId := "a", dstExternalId := "b"
               eprop := [] }]

theorem not_readsTable {parser : IdParser} {pid vlabel epoch : Nat} {log : List Record} {l l' : LabelStore}
    (hgone : ∀ gid ∈ metBy parser pid (upTo epoch log), gid ∈ deletedOf (upTo epoch log))
    (hread : (outerVertices (vtableMeta l) l'.vtable.table l'.vtable.size).map List.length = some 1) :
    ¬ ReadsTable parser pid vlabel epoch log l l' := by
  rintro ⟨inner, outer, innerLids, outerLids, -, -, -, houter, -, -, -, hlids, -, hreads, -⟩
  have hnone : outer = [] := by
    refine List.eq_nil_iff_forall_not_mem.mpr fun gid hgid => ?_
    obtain ⟨hmet, -, hlive⟩ := (houter gid).mp hgid
    exact hlive (hgone gid hmet)
  rw [hnone] at hlids
  cases hlids
  rw [hreads] at hread
  cases hread

/-- The run of a log has room in the table and deletes outer vertices only, and its table is not read as it should
be. -/
def ReadsOther (log : List Record) : Prop := ∃ sb s l, initGraphSchema oneRelation = .ok sb ∧
  (tableLines log).foldlM GraphStore.applyRecord (GraphStore.create (ofTwo 0) sb) = .ok s ∧
  s.labels[0]? = some l ∧ l.tableView.use ≤ 8 ∧ (∀ gid ∈ deletedOf log, (IdParser.init 2).getFid gid ≠ 0) ∧
  ¬ ReadsTable (IdParser.init 2) 0 0 1 log l l

/-- An outer vertex is read that is deleted, when another one is deleted twice, or when it is met after its deletion. -/
theorem readsTable_outer_deleted : ReadsOther deletedTwice ∧ ReadsOther metDeleted := by
  have hruns : ∀ log ∈ [deletedTwice, metDeleted], ((initGraphSchema oneRelation).toOption.bind fun sb =>
      ((tableLines log).foldlM GraphStore.applyRecord (GraphStore.create (ofTwo 0) sb)).toOption.bind fun s =>
      (s.labels[0]?).map fun l => (decide (l.tableView.use ≤ 8),
        (outerVertices (vtableMeta l) l.vtable.table l.vtable.size).map List.length)) = some (true, some 1) := by
    decide +kernel
  have hgone : ∀ log ∈ [deletedTwice, metDeleted], ∀ gid ∈ metBy (IdParser.init 2) 0 (upTo 1 log),
      gid ∈ deletedOf (upTo 1 log) := by
    decide
  have hforeign : ∀ log ∈ [deletedTwice, metDeleted], ∀ gid ∈ deletedOf log, (IdParser.init 2).getFid gid ≠ 0 := by
    decide
  have hall : ∀ log ∈ [deletedTwice, metDeleted], ReadsOther log := by
    intro log hlog
    have hruns := hruns log hlog
    obtain ⟨sb, hsb, hruns⟩ := Option.bind_eq_some_iff.mp hruns
    obtain ⟨s, hs, hruns⟩ := Option.bind_eq_some_iff.mp hruns
    obtain ⟨l, hl, hruns⟩ := Option.map_eq_some_iff.mp hruns
    obtain ⟨huse, hread⟩ := Prod.ext_iff.mp hruns
    exact ⟨sb, s, l, ok_of_toOption hsb, ok_of_toOption hs, hl, of_decide_eq_true huse, hforeign log hlog,
      not_readsTable (hgone log hlog) hread⟩
  exact ⟨hall deletedTwice List.mem_cons_self, hall metDeleted (List.mem_cons_of_mem _ List.mem_cons_self)⟩

end Gart.Fragment
