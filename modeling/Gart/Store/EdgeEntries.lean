import Gart.Store.InnerGraphs
import Gart.Store.ListGraph

/-!
# The entries of edges

An edge has an entry in the lists of both of its ends, with the bytes that `construct_eprop` makes of its properties.
Lists of inner and of outer vertices are treated alike. All calls of `put_edge` are expected to pass as many bytes as
the edges of the label have.
-/

namespace Gart.Store
open Gart.ByteMemory Gart.Outcome Gart.Fragment Gart.Seggraph Gart.Seggraph.SegGraph

/-! ### What a run adds -/

def VertexRef.lid (parser : IdParser) (v : VertexRef) : Nat := parser.generateId 0 v.vlabel v.offset

/-- An edge in the list of one of its ends, with the local id of the other. -/
structure EndEntry where
  vertex : VertexRef
  elabel : Nat
  dir : Dir
  lid : Nat
  data : Bytes
  deriving DecidableEq

namespace GraphStore

def nextOuter (s : GraphStore) (vlabel : Nat) : Nat := ((s.labels[vlabel]?).map fun l => l.ovGraph.vertexId).getD 0

/-- The vertex of an end of an edge that is added; an outer vertex that is not known gets the next number. -/
def addedEnd (s : GraphStore) (vid : Nat) : VertexRef :=
  let vlabel := s.idParser.getLabelId vid
  if s.idParser.getFid vid = s.localPid then ⟨false, vlabel, s.idParser.getOffset vid, s.idParser.getOffset vid⟩
  else
    let ov := (s.getLid vlabel vid).getD (s.nextOuter vlabel)
    ⟨true, vlabel, ov, s.maxOuterIdOffset - ov⟩

def edgeEntries (s : GraphStore) (r : EdgeRecord) (data : Bytes) : List EndEntry :=
  let src := s.addedEnd r.srcVid
  let dst := s.addedEnd r.dstVid
  [⟨src, r.elabel, .eout, dst.lid s.idParser, data⟩, ⟨dst, r.elabel, .ein, src.lid s.idParser, data⟩]

/-- The entries of an edge that has an end in the partition, with its properties as they are encoded. -/
def addedEntries (s : GraphStore) : Record → List EndEntry
  | .addEdge cmd =>
    if s.idParser.getFid cmd.srcVid ≠ s.localPid ∧ s.idParser.getFid cmd.dstVid ≠ s.localPid then []
    else
      match s.constructEprop cmd.toRecord.elabel cmd.toRecord.eprop with
      | .ok (data, _) => s.edgeEntries cmd.toRecord data
      | .error _ => []
  | _ => []

def entriesOf (s : GraphStore) : List (RecordDraws × Record) → List EndEntry
  | [] => []
  | line :: rest => s.addedEntries line.2 ++
    match s.applyRecord line with
    | .ok s' => s'.entriesOf rest
    | .error _ => []

end GraphStore

/-! ### Lists and their entries -/

/-- A list of a vertex; both directions of an undirected label are one list. -/
def EndEntry.OnList (undirected : Nat → Bool) (outer : Bool) (vlabel v e : Nat) (d : Dir) (x : EndEntry) : Prop :=
  outer = x.vertex.outer ∧ vlabel = x.vertex.vlabel ∧ v = x.vertex.index ∧ e = x.elabel ∧
    SameList (undirected x.elabel) x.dir d

instance (undirected : Nat → Bool) (outer : Bool) (vlabel v e : Nat) (d : Dir) (x : EndEntry) :
    Decidable (x.OnList undirected outer vlabel v e d) := inferInstanceAs (Decidable (_ ∧ _))

def onList (undirected : Nat → Bool) (outer : Bool) (vlabel v e : Nat) (d : Dir) (added : List EndEntry) :
    List (Nat × Bytes) :=
  (added.filter fun x => x.OnList undirected outer vlabel v e d).map fun x => (x.lid, x.data)

def edgesIn (entries : List LogEntry) : List (Nat × Bytes) :=
  (entries.filter fun x => x.edge.dst < deleteFlag).map fun x => (x.edge.dst, x.edge.data)

/-- A log for each graph of a store: that of the inner or of the outer vertices of a label. -/
abbrev SideLogs := Bool → Nat → Log

def appendSide (undirected : Nat → Bool) (log : SideLogs) (outer : Bool) (vlabel v e : Nat) (d : Dir)
    (entry : LogEntry) : SideLogs :=
  fun o i v' e' d' =>
    if o = outer ∧ i = vlabel ∧ v' = v ∧ e' = e ∧ SameList (undirected e) d d' then log o i v' e' d' ++ [entry]
    else log o i v' e' d'

/-- The lists of a store hold the entries that were added, and markers. -/
structure EntryLists (k : Partition) (undirected : Nat → Bool) (s : GraphStore) (log : SideLogs)
    (added : List EndEntry) : Prop where
  idParser : s.idParser = k.parser
  localPid : s.localPid = k.pid
  stride : ∀ e, k.stride e = GraphStore.edgeDataSize (s.edgeDtypes.getD e [])
  graph : ∀ outer i l, s.labels[i]? = some l →
    ListGraph (fun _ => True) k.stride undirected True (l.side outer) (log outer i)
  entries : ∀ outer i v e d, edgesIn (log outer i v e d) = onList undirected outer i v e d added

section entries
variable {k : Partition} {undirected : Nat → Bool} {s s' s'' : GraphStore} {log : SideLogs} {added : List EndEntry}
  {outer : Bool} {vlabel v e epoch dst vid : Nat} {d : Dir} {l l' : LabelStore} {data : Bytes} {x : EndEntry}
  {entry : LogEntry} {entries : List LogEntry} {r : GraphStore.EdgeRecord}

theorem edgesIn_append_edge (h : entry.edge.dst < deleteFlag) :
    edgesIn (entries ++ [entry]) = edgesIn entries ++ [(entry.edge.dst, entry.edge.data)] := by
  unfold edgesIn
  rw [List.filter_append, List.map_append,
      show ([entry].filter fun x => decide (x.edge.dst < deleteFlag)) = [entry] from
    List.filter_cons_of_pos (decide_eq_true h)]
  rfl

theorem edgesIn_append_marker (h : ¬ entry.edge.dst < deleteFlag) : edgesIn (entries ++ [entry]) = edgesIn entries := by
  unfold edgesIn
  rw [List.filter_append, show ([entry].filter fun x => decide (x.edge.dst < deleteFlag)) = [] from
    List.filter_cons_of_neg (by simpa using h), List.append_nil]

theorem onList_append : onList undirected outer vlabel v e d (added ++ [x]) =
    if x.OnList undirected outer vlabel v e d then onList undirected outer vlabel v e d added ++ [(x.lid, x.data)]
    else onList undirected outer vlabel v e d added := by
  unfold onList
  rw [List.filter_append, List.map_append]
  split
  · rename_i hon
    rw [show ([x].filter fun x => decide (x.OnList undirected outer vlabel v e d)) = [x] from
      List.filter_cons_of_pos (decide_eq_true hon)]
    rfl
  · rename_i hoff
    rw [show ([x].filter fun x => decide (x.OnList undirected outer vlabel v e d)) = [] from
      List.filter_cons_of_neg (by simpa using hoff)]
    exact List.append_nil _

/-! ### Steps of a graph -/

theorem onSide_cases {f : SegGraph → Except Stop SegGraph} (h : s.onSide outer vlabel f = .ok s') :
    ∃ l l', OneLabel vlabel l l' s s' ∧ f (l.side outer) = .ok (l'.side outer) ∧
      l'.side (!outer) = l.side (!outer) ∧ l'.keyLid = l.keyLid ∧ l'.vtable = l.vtable := by
  cases outer with
  | false =>
    obtain ⟨l, g, hone, hg⟩ := onGraph_cases h
    exact ⟨l, _, hone, hg, rfl, rfl, rfl⟩
  | true =>
    obtain ⟨l, g, hone, hg⟩ := onOvGraph_cases h
    exact ⟨l, _, hone, hg, rfl, rfl, rfl⟩

theorem EntryLists.keep (h : EntryLists k undirected s log added) (hone : OneLabel vlabel l l' s s')
    (hside : ∀ outer, ListGraph (fun _ => True) k.stride undirected True (l.side outer) (log outer vlabel) →
      ListGraph (fun _ => True) k.stride undirected True (l'.side outer) (log outer vlabel)) :
    EntryLists k undirected s' log added := by
  refine ⟨hone.same.idParser.trans h.idParser, hone.same.localPid.trans h.localPid, fun e => ?_, fun outer i m hm => ?_,
    h.entries⟩
  · rw [hone.same.edgeDtypes]
    exact h.stride e
  · rw [hone.after] at hm
    split at hm
    · rename_i hi
      rw [hi, ← Option.some.inj hm]
      exact hside outer (h.graph outer vlabel l hone.before)
    · exact h.graph outer i m hm

theorem EntryLists.writer {recycle : Bool} (h : EntryLists k undirected s log added)
    (hstep : s.onSide outer vlabel (fun g => .ok (g.createGraphWriter recycle epoch)) = .ok s') :
    EntryLists k undirected s' log added := by
  obtain ⟨l, l', hone, hg, hother, -⟩ := onSide_cases hstep
  refine h.keep hone fun o hl => ?_
  by_cases ho : o = outer
  · rw [ho, ← Except.ok.inj hg]
    rw [ho] at hl
    exact hl.writer recycle epoch
  · rw [Bool.eq_not_of_ne ho] at hl ⊢
    rw [hother]
    exact hl

theorem EntryLists.put (h : EntryLists k undirected s log added) (hdata : data.length = k.stride e)
    (hdst : dst < 2 ^ 64)
    (hone : OneLabel vlabel l l' s s') (hput : (l.side outer).putEdge epoch v e d dst data = .ok (l'.side outer))
    (hother : l'.side (!outer) = l.side (!outer)) : ∃ seen, ∀ added',
      (∀ o i v' e' d', edgesIn (appendSide undirected log outer vlabel v e d ⟨seen, ⟨dst, data⟩⟩ o i v' e' d') =
        onList undirected o i v' e' d' added') →
      EntryLists k undirected s' (appendSide undirected log outer vlabel v e d ⟨seen, ⟨dst, data⟩⟩) added' := by
  have hgraph := h.graph outer vlabel l hone.before
  obtain ⟨seen, hseen⟩ := exists_seenFrom epoch (log outer vlabel v e d)
  obtain ⟨hgraph', -, -⟩ := hgraph.putEdge (Or.inl hdata) (fun _ => hdata) hdst hseen (Or.inl trivial) hput
  refine ⟨seen, fun added' hentries => ⟨hone.same.idParser.trans h.idParser, hone.same.localPid.trans h.localPid,
    fun e' => ?_, fun o i m hm => ?_, hentries⟩⟩
  · rw [hone.same.edgeDtypes]
    exact h.stride e'
  · have hsame : ∀ o i, ¬ (o = outer ∧ i = vlabel) →
        appendSide undirected log outer vlabel v e d ⟨seen, ⟨dst, data⟩⟩ o i = log o i := by
      intro o i hne
      funext v' e' d'
      exact if_neg fun hon => hne ⟨hon.1, hon.2.1⟩
    rw [hone.after] at hm
    split at hm
    · rename_i hi
      rw [← Option.some.inj hm, hi]
      by_cases ho : o = outer
      · have hlog : appendSide undirected log outer vlabel v e d ⟨seen, ⟨dst, data⟩⟩ outer vlabel =
            appendLog (undirected e) (log outer vlabel) v e d ⟨seen, ⟨dst, data⟩⟩ := by
          funext v' e' d'
          exact if_congr ⟨fun hon => hon.2.2, fun hon => ⟨rfl, rfl, hon⟩⟩ rfl rfl
        rw [ho, hlog]
        exact hgraph'
      · rw [hsame o vlabel fun hat => ho hat.1, Bool.eq_not_of_ne ho, hother]
        exact h.graph (!outer) vlabel l hone.before
    · rename_i hi
      rw [hsame o i fun hat => hi hat.2]
      exact h.graph o i m hm

theorem EntryLists.putEntry (h : EntryLists k undirected s log added) (hlid : x.lid < deleteFlag)
    (hdata : x.data.length = k.stride x.elabel)
    (hstep : s.onSide x.vertex.outer x.vertex.vlabel (fun g =>
      g.putEdge epoch x.vertex.index x.elabel x.dir x.lid x.data) = .ok s') :
    ∃ log', EntryLists k undirected s' log' (added ++ [x]) := by
  obtain ⟨l, l', hone, hput, hother, -⟩ := onSide_cases hstep
  obtain ⟨seen, hnew⟩ := h.put hdata (Nat.lt_trans hlid (by decide)) hone hput hother
  refine ⟨_, hnew _ fun o i v' e' d' => ?_⟩
  rw [onList_append, ← h.entries]
  unfold appendSide
  by_cases hon : x.OnList undirected o i v' e' d'
  · rw [if_pos hon, if_pos (by exact hon), edgesIn_append_edge hlid]
  · rw [if_neg hon, if_neg (by exact hon)]

/-! ### An edge -/

/-- Steps that make no vertex known and number none. -/
structure SameEnds (s s' : GraphStore) : Prop where
  same : SameStore s s'
  lid : ∀ vlabel vid, s'.getLid vlabel vid = s.getLid vlabel vid
  next : ∀ vlabel, s'.nextOuter vlabel = s.nextOuter vlabel

theorem SameEnds.trans (h : SameEnds s s') (h' : SameEnds s' s'') : SameEnds s s'' :=
  ⟨h.same.trans h'.same, fun vlabel vid => (h'.lid vlabel vid).trans (h.lid vlabel vid),
    fun vlabel => (h'.next vlabel).trans (h.next vlabel)⟩

theorem OneLabel.sameEnds (hone : OneLabel vlabel l l' s s') (hkey : l'.keyLid = l.keyLid)
    (hnext : l'.ovGraph.vertexId = l.ovGraph.vertexId) : SameEnds s s' := by
  refine ⟨hone.same, fun i vid => ?_, fun i => ?_⟩
  · unfold GraphStore.getLid
    rw [hone.after]
    split
    · rename_i hi
      rw [hi, hone.before]
      exact congrFun hkey vid
    · rfl
  · unfold GraphStore.nextOuter
    rw [hone.after]
    split
    · rename_i hi
      rw [hi, hone.before]
      exact hnext
    · rfl

theorem constructEprop_congr (h : SameStore s s') (hstrings : s'.strings = s.strings) (elabel : Nat)
    (eprop : List Bytes) :
    s'.constructEprop elabel eprop = s.constructEprop elabel eprop := by
  have hput : s'.putEprop = s.putEprop := by
    funext dtypes st prop
    unfold GraphStore.putEprop GraphStore.assignProp
    rw [h.assignOther]
  unfold GraphStore.constructEprop
  rw [h.edgeDtypes, hput, hstrings]

theorem onGraph_strings {f : SegGraph → Except Stop SegGraph} (h : s.onGraph vlabel f = .ok s') :
    s'.strings = s.strings := by
  unfold GraphStore.onGraph at h
  obtain ⟨l, -, h⟩ := bind_eq_ok h
  obtain ⟨g, -, h⟩ := bind_eq_ok h
  rw [← Except.ok.inj h]
  rfl

theorem EntryLists.graphWriter {recycle : Bool} (h : EntryLists k undirected s log added)
    (hstep : s.onGraph vlabel (fun g => .ok (g.createGraphWriter recycle epoch)) = .ok s') :
    EntryLists k undirected s' log added ∧ SameEnds s s' := by
  obtain ⟨l, g, hone, -⟩ := onGraph_cases hstep
  exact ⟨@EntryLists.writer _ _ _ _ _ _ false _ _ _ h hstep, hone.sameEnds rfl rfl⟩

/-- The writers of an edge change no list, and its properties are those of the store before. -/
theorem EntryLists.prepareEdge {draws : GraphStore.Draws} (h : EntryLists k undirected s log added)
    (hstep : s.prepareEdge draws r = .ok (data, s')) : EntryLists k undirected s' log added ∧ SameEnds s s' ∧
      (∃ strings, s.constructEprop r.elabel r.eprop = .ok (data, strings)) ∧ data.length = k.stride r.elabel := by
  unfold GraphStore.prepareEdge at hstep
  obtain ⟨s1, hsrc, hstep⟩ := bind_eq_ok hstep
  obtain ⟨s2, hdst, hstep⟩ := bind_eq_ok hstep
  obtain ⟨⟨data', strings⟩, hprop, hstep⟩ := bind_eq_ok hstep
  obtain ⟨hdata, hs⟩ := Prod.mk.inj (Except.ok.inj hstep)
  obtain ⟨h1, hends1⟩ := h.graphWriter hsrc
  obtain ⟨h2, hends2⟩ := h1.graphWriter hdst
  have hends := hends1.trans hends2
  have hstrings := (onGraph_strings hdst).trans (onGraph_strings hsrc)
  have hlength := (constructEprop_length hprop).1
  rw [← h2.stride] at hlength
  rw [constructEprop_congr hends.same hstrings] at hprop
  rw [← hdata, ← hs]
  exact ⟨⟨h2.idParser, h2.localPid, h2.stride, h2.graph, h2.entries⟩,
    ⟨⟨hends.same.idParser, hends.same.localPid, hends.same.edgeDtypes, hends.same.globalVertexMap,
      hends.same.assignOther⟩, hends.lid, hends.next⟩, ⟨strings, hprop⟩, hlength⟩

theorem EntryLists.outerEndpoint {recycle : Bool} {ov : Nat} {externalId : Bytes}
    (h : EntryLists k undirected s log added) (hstep : s.outerEndpoint recycle epoch vid externalId = .ok (ov, s')) :
    EntryLists k undirected s' log added ∧ SameStore s s' ∧
      ov = (s.getLid (s.idParser.getLabelId vid) vid).getD (s.nextOuter (s.idParser.getLabelId vid)) := by
  unfold GraphStore.outerEndpoint at hstep
  dsimp only at hstep
  obtain ⟨l, hl, hstep⟩ := bind_eq_ok hstep
  have hl := getLabel_eq hl
  have hlid : s.getLid (s.idParser.getLabelId vid) vid = l.keyLid vid := by
    unfold GraphStore.getLid
    rw [hl]
    rfl
  have hnext : s.nextOuter (s.idParser.getLabelId vid) = l.ovGraph.vertexId := by
    unfold GraphStore.nextOuter
    rw [hl]
    rfl
  rw [hlid, hnext]
  split at hstep
  · rename_i known hknown
    obtain ⟨rfl, rfl⟩ := Prod.mk.inj (Except.ok.inj hstep)
    refine ⟨h.keep (oneLabel_setLabel hl _ _) fun outer hside => ?_, ⟨rfl, rfl, rfl, rfl, rfl⟩, ?_⟩
    · cases outer with
      | false => exact hside
      | true => exact hside.writer recycle epoch
    · rw [show l.keyLid vid = some known from hknown]
      rfl
  · rename_i hunknown
    obtain ⟨⟨l', strings⟩, hadd, hstep⟩ := bind_eq_ok hstep
    obtain ⟨rfl, rfl⟩ := Prod.mk.inj (Except.ok.inj hstep)
    unfold GraphStore.addOuterVertex at hadd
    dsimp only at hadd
    obtain ⟨vtable, -, hadd⟩ := bind_eq_ok hadd
    obtain ⟨⟨value, strings'⟩, -, hadd⟩ := bind_eq_ok hadd
    obtain ⟨l2, hmap, hadd⟩ := bind_eq_ok hadd
    obtain ⟨map, rfl⟩ := mapVertex_eq hmap
    obtain ⟨rfl, rfl⟩ := Prod.mk.inj (Except.ok.inj hadd)
    refine ⟨h.keep (oneLabel_setLabel hl _ _) fun outer hside => ?_, ⟨rfl, rfl, rfl, rfl, rfl⟩, ?_⟩
    · cases outer with
      | false => exact hside
      | true => exact (hside.writer recycle epoch).newVertex
    · rw [show l.keyLid vid = none from hunknown]
      exact (createGraphWriter_sameGraph l.ovGraph recycle epoch).vertexId

theorem EntryLists.putBoth {x y : EndEntry} (h : EntryLists k undirected s log added) (hx : x.lid < deleteFlag)
    (hy : y.lid < deleteFlag) (hxdata : x.data.length = k.stride x.elabel) (hydata : y.data.length = k.stride y.elabel)
    (hout : s.onSide x.vertex.outer x.vertex.vlabel (fun g =>
      g.putEdge epoch x.vertex.index x.elabel x.dir x.lid x.data) = .ok s')
    (hin : s'.onSide y.vertex.outer y.vertex.vlabel (fun g =>
      g.putEdge epoch y.vertex.index y.elabel y.dir y.lid y.data) = .ok s'') :
    ∃ log', EntryLists k undirected s'' log' (added ++ [x, y]) := by
  obtain ⟨log1, h1⟩ := h.putEntry hx hxdata hout
  obtain ⟨log2, h2⟩ := h1.putEntry hy hydata hin
  rw [List.append_assoc] at h2
  exact ⟨log2, h2⟩

theorem EntryLists.addEdge {cmd : EdgeCmd} {draws : GraphStore.Draws} (h : EntryLists k undirected s log added)
    (hnarrow : k.Narrow) (hstep : s.processAddEdge draws cmd.toRecord = .ok s') :
    ∃ log', EntryLists k undirected s' log' (added ++ s.addedEntries (.addEdge cmd)) := by
  have hlid : ∀ v : VertexRef, v.lid s.idParser < deleteFlag := by
    intro v
    rw [h.idParser]
    exact hnarrow _ _ _
  unfold GraphStore.addedEntries
  dsimp only
  unfold GraphStore.processAddEdge at hstep
  dsimp only at hstep
  change (if s.idParser.getFid cmd.srcVid ≠ s.localPid ∧ s.idParser.getFid cmd.dstVid ≠ s.localPid then _ else _) =
      _ at hstep
  split at hstep
  · rename_i hforeign
    rw [if_pos hforeign, List.append_nil, ← Except.ok.inj hstep]
    exact ⟨log, h⟩
  · rename_i hsome
    rw [if_neg hsome]
    obtain ⟨⟨data, s1⟩, hprepare, hstep⟩ := bind_eq_ok hstep
    obtain ⟨h1, hends, ⟨strings, hprop⟩, hdata⟩ := h.prepareEdge hprepare
    dsimp only at hstep
    rw [hprop]
    dsimp only
    unfold GraphStore.edgeEntries
    dsimp only
    have hinner : ∀ vid, s.idParser.getFid vid = s.localPid → s.addedEnd vid =
        ⟨false, s.idParser.getLabelId vid, s.idParser.getOffset vid, s.idParser.getOffset vid⟩ :=
      fun vid hmine => if_pos hmine
    have houter : ∀ vid ov, s.idParser.getFid vid ≠ s.localPid →
        ov = (s1.getLid (s1.idParser.getLabelId vid) vid).getD (s1.nextOuter (s1.idParser.getLabelId vid)) →
        s.addedEnd vid = ⟨true, s.idParser.getLabelId vid, ov, s.maxOuterIdOffset - ov⟩ := by
      intro vid ov hforeign hov
      rw [hov, hends.lid, hends.next, hends.same.idParser]
      exact if_neg hforeign
    rw [hends.same.localPid] at hstep
    split at hstep
    · rename_i hcase
      obtain ⟨⟨ov, s2⟩, hendpoint, hstep⟩ := bind_eq_ok hstep
      obtain ⟨h2, hsame, hov⟩ := h1.outerEndpoint hendpoint
      obtain ⟨s3, hout, hin⟩ := bind_eq_ok hstep
      have hsrc := hinner cmd.toRecord.srcVid hcase.1
      have hdst := houter cmd.toRecord.dstVid ov hcase.2 hov
      have hparser : s2.idParser = s.idParser := hsame.idParser.trans hends.same.idParser
      unfold GraphStore.outerLid GraphStore.maxOuterIdOffset at hout
      dsimp only at hout hin
      rw [hparser] at hout
      rw [hsrc, hdst]
      exact @EntryLists.putBoth k undirected s2 s3 s' log added _ _ _ h2 (hlid _) (hlid _) hdata hdata hout hin
    · split at hstep
      · rename_i hcase
        obtain ⟨⟨ov, s2⟩, hendpoint, hstep⟩ := bind_eq_ok hstep
        obtain ⟨h2, hsame, hov⟩ := h1.outerEndpoint hendpoint
        obtain ⟨s3, hout, hin⟩ := bind_eq_ok hstep
        have hsrc := houter cmd.toRecord.srcVid ov hcase.1 hov
        have hdst := hinner cmd.toRecord.dstVid hcase.2
        obtain ⟨_, _, hone, -⟩ := onOvGraph_cases hout
        have hparser : s3.idParser = s.idParser := hone.same.idParser.trans (hsame.idParser.trans hends.same.idParser)
        unfold GraphStore.outerLid GraphStore.maxOuterIdOffset at hin
        dsimp only at hout hin
        rw [hparser] at hin
        rw [hsrc, hdst]
        exact @EntryLists.putBoth k undirected s2 s3 s' log added _ _ _ h2 (hlid _) (hlid _) hdata hdata hout hin
      · rename_i hnot hnot'
        have hsrcMine : s.idParser.getFid cmd.srcVid = s.localPid := by
          by_contra hne
          by_cases hdst : s.idParser.getFid cmd.dstVid = s.localPid
          · exact hnot' ⟨hne, hdst⟩
          · exact hsome ⟨hne, hdst⟩
        have hdstMine : s.idParser.getFid cmd.dstVid = s.localPid := by
          by_contra hne
          exact hnot ⟨hsrcMine, hne⟩
        obtain ⟨s3, hout, hin⟩ := bind_eq_ok hstep
        have hsrc := hinner cmd.toRecord.srcVid hsrcMine
        have hdst := hinner cmd.toRecord.dstVid hdstMine
        rw [hsrc, hdst]
        exact @EntryLists.putBoth k undirected s1 s3 s' log added _ _ _ h1 (hlid _) (hlid _) hdata hdata hout hin

end entries

end Gart.Store
