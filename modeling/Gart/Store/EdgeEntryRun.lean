import Gart.Store.EdgeEntries

/-!
# Deletions among the entries

A deletion appends markers to lists. If the data of its calls have the size of the edges of their label, the entries of
the edges stay as they are; the calls of labels for which they have not are not reached when no entry is found.
-/

namespace Gart.Store
open Gart.ByteMemory Gart.Outcome Gart.Fragment Gart.Seggraph Gart.Seggraph.SegGraph

/-! ### What a deletion needs -/

def FindsNothing (s : GraphStore) (v : VertexRef) (elabel : Nat) (d : Dir) (searched : Nat → Bool) : Prop :=
  ∀ l ∈ s.labels[v.vlabel]?,
    let g := l.side v.outer
    let seg := g.segments (g.locateSegment (v.index / vertexPerSeg) elabel d)
    seg.findEntry searched (seg.regionPtrs (v.index % vertexPerSeg)) = .ok none

/-- A deletion of an edge whose markers have the size of the edges of the label, or that finds no entry at either
end. -/
def DelEdgeFits (s : GraphStore) (r : GraphStore.EdgeRecord) : Prop :=
  GraphStore.delEdgePropBytes (s.edgeDtypes.getD r.elabel []) =
      GraphStore.edgeDataSize (s.edgeDtypes.getD r.elabel []) ∨
    s.idParser.getFid r.srcVid ≠ s.localPid ∧ s.idParser.getFid r.dstVid ≠ s.localPid ∨
    ∀ src, s.edgeEnd r.srcVid = .ok src → ∀ dst, s.edgeEnd r.dstVid = .ok dst →
      FindsNothing s src r.elabel .eout (s.holdsOffset dst.offset) ∧
        FindsNothing s dst r.elabel .ein (s.holdsOffset src.offset)

def GraphStore.deletedVertex (s : GraphStore) (vid : Nat) : Option VertexRef :=
  let vlabel := s.idParser.getLabelId vid
  if s.idParser.getFid vid = s.localPid then
    some ⟨false, vlabel, s.idParser.getOffset vid, s.idParser.getOffset vid⟩
  else (s.getLid vlabel vid).map fun ov => ⟨true, vlabel, ov, s.maxOuterIdOffset - ov⟩

/-- The markers of a deletion of a vertex have the size of the edges of a label, or there is no edge of the label to
delete. -/
def DelVertexFits (s : GraphStore) (v : VertexRef) : Prop :=
  ∀ elabel < s.edgeDtypes.length,
    GraphStore.edgePropBytes (s.edgeDtypes.getD elabel []) = GraphStore.edgeDataSize (s.edgeDtypes.getD elabel []) ∨
      ∀ l ∈ s.labels[v.vlabel]?, ∀ d found, (l.side v.outer).edgesToDelete v.index elabel d = .ok found → found = []

def MarkersFit (s : GraphStore) : Record → Prop
  | .deleteEdge cmd => DelEdgeFits s cmd.toRecord
  | .deleteVertex cmd => ∀ v ∈ s.deletedVertex cmd.vid, DelVertexFits s v
  | _ => True

/-- The markers of every record fit in the store that it comes to. -/
def AllMarkersFit (s : GraphStore) : List (GraphStore.RecordDraws × Record) → Prop
  | [] => True
  | line :: rest => MarkersFit s line.2 ∧ ∀ s', s.applyRecord line = .ok s' → AllMarkersFit s' rest

instance (s : GraphStore) (v : VertexRef) (elabel : Nat) (d : Dir) (searched : Nat → Bool) :
    Decidable (FindsNothing s v elabel d searched) := inferInstanceAs (Decidable (∀ l ∈ _, _ = _))

instance (s : GraphStore) (r : GraphStore.EdgeRecord) : Decidable (DelEdgeFits s r) :=
  inferInstanceAs (Decidable (_ ∨ _ ∧ _ ∨ ∀ src, s.edgeEnd r.srcVid = .ok src → ∀ dst, s.edgeEnd r.dstVid = .ok dst →
    FindsNothing s src _ _ _ ∧ FindsNothing s dst _ _ _))

instance (s : GraphStore) (v : VertexRef) : Decidable (DelVertexFits s v) :=
  inferInstanceAs (Decidable (∀ elabel < _, _ ∨ ∀ l ∈ s.labels[v.vlabel]?, ∀ (d : Dir) (found : List (Nat × Nat)),
    (l.side v.outer).edgesToDelete v.index elabel d = .ok found → found = []))

instance (s : GraphStore) (r : Record) : Decidable (MarkersFit s r) :=
  match r with
  | .deleteEdge cmd => inferInstanceAs (Decidable (DelEdgeFits s cmd.toRecord))
  | .deleteVertex cmd => inferInstanceAs (Decidable (∀ v ∈ s.deletedVertex cmd.vid, DelVertexFits s v))
  | .addEdge _ | .addVertex _ | .updateVertex _ | .bulkloadEnd _ | .unsupported _ => isTrue trivial

instance decidableAllMarkersFit (s : GraphStore) :
    (lines : List (GraphStore.RecordDraws × Record)) → Decidable (AllMarkersFit s lines)
  | [] => isTrue trivial
  | line :: rest =>
    have := fun s' => decidableAllMarkersFit s' rest
    inferInstanceAs (Decidable (MarkersFit s line.2 ∧ ∀ s', s.applyRecord line = .ok s' → AllMarkersFit s' rest))

/-! ### Lists that stay -/

def OnlyFitting (fit : Nat → Prop) (log log' : SideLogs) : Prop :=
  ∀ e, ¬ fit e → ∀ o i v d, log' o i v e d = log o i v e d

def KeepsEntries (k : Partition) (undirected : Nat → Bool) (added : List EndEntry) (fit : Nat → Prop) (s : GraphStore)
    (log : SideLogs) (s' : GraphStore) : Prop :=
  ∃ log', EntryLists k undirected s' log' added ∧ SameStore s s' ∧ OnlyFitting fit log log'

structure SameSegments (g g' : SegGraph) : Prop where
  segments : g'.segments = g.segments
  locate : ∀ segId elabel d, g'.locateSegment segId elabel d = g.locateSegment segId elabel d

structure SameLists (s s' : GraphStore) : Prop where
  same : SameStore s s'
  side : ∀ (i : Nat) (l' : LabelStore), s'.labels[i]? = some l' →
    ∃ l : LabelStore, s.labels[i]? = some l ∧ ∀ outer, SameSegments (l.side outer) (l'.side outer)

section deletions
variable {k : Partition} {undirected : Nat → Bool} {fit : Nat → Prop} {s s' s'' : GraphStore}
  {log log' log'' : SideLogs}
  {added : List EndEntry} {outer recycle : Bool} {vlabel v e epoch loc elabel : Nat} {d dir : Dir} {l l' : LabelStore}
  {data : Bytes} {searched : Nat → Bool} {ref : VertexRef} {g g' : SegGraph}

theorem OnlyFitting.refl (log : SideLogs) : OnlyFitting fit log log := fun _ _ _ _ _ _ => rfl

theorem OnlyFitting.trans (h : OnlyFitting fit log log') (h' : OnlyFitting fit log' log'') :
    OnlyFitting fit log log'' :=
  fun e he o i v d => (h' e he o i v d).trans (h e he o i v d)

theorem KeepsEntries.refl (h : EntryLists k undirected s log added) : KeepsEntries k undirected added fit s log s :=
  ⟨log, h, .refl s, .refl log⟩

theorem KeepsEntries.trans (h : KeepsEntries k undirected added fit s log s')
    (h' : ∀ log', EntryLists k undirected s' log' added → SameStore s s' → OnlyFitting fit log log' →
      KeepsEntries k undirected added fit s' log' s'') : KeepsEntries k undirected added fit s log s'' := by
  obtain ⟨log', hlists, hsame, honly⟩ := h
  obtain ⟨log'', hlists', hsame', honly'⟩ := h' log' hlists hsame honly
  exact ⟨log'', hlists', hsame.trans hsame', honly.trans honly'⟩

theorem keepsEntries_foldlM {α : Type} {f : GraphStore → α → Except StoreFault GraphStore} {xs : List α}
    (h : EntryLists k undirected s log added)
    (hround : ∀ x ∈ xs, ∀ s1 log1 s2, EntryLists k undirected s1 log1 added → SameStore s s1 →
        OnlyFitting fit log log1 →
      f s1 x = .ok s2 → KeepsEntries k undirected added fit s1 log1 s2)
    (hloop : xs.foldlM f s = .ok s') : KeepsEntries k undirected added fit s log s' := by
  suffices hall : ∀ s1 log1, EntryLists k undirected s1 log1 added → SameStore s s1 → OnlyFitting fit log log1 →
      xs.foldlM f s1 = .ok s' → KeepsEntries k undirected added fit s1 log1 s' from
    hall s log h (.refl s) (.refl log) hloop
  clear hloop h
  induction xs with
  | nil =>
    intro s1 log1 h1 _ _ hloop
    rw [← Except.ok.inj hloop]
    exact .refl h1
  | cons x rest ih =>
    intro s1 log1 h1 hsame honly hloop
    rw [List.foldlM_cons] at hloop
    obtain ⟨s2, hx, hrest⟩ := bind_eq_ok hloop
    refine (hround x List.mem_cons_self s1 log1 s2 h1 hsame honly hx).trans fun log2 h2 hsame2 honly2 => ?_
    exact ih (fun y hy => hround y (List.mem_cons_of_mem _ hy)) s2 log2 h2 (hsame.trans hsame2)
        (honly.trans honly2) hrest

/-! ### Markers -/

theorem EntryLists.marker (h : EntryLists k undirected s log added) (hfit : fit e) (hloc : loc < 2 ^ 64)
    (hdata : data.length = k.stride e) (hone : OneLabel vlabel l l' s s')
    (hput : (l.side outer).putEdge epoch v e d (loc ||| deleteFlag) data = .ok (l'.side outer))
    (hother : l'.side (!outer) = l.side (!outer)) : KeepsEntries k undirected added fit s log s' := by
  have hflag : ¬ loc ||| deleteFlag < deleteFlag := Nat.not_lt.mpr Nat.right_le_or
  obtain ⟨seen, hnew⟩ := h.put hdata (Nat.or_lt_two_pow hloc (by decide)) hone hput hother
  refine ⟨_, hnew added fun o i v' e' d' => ?_, hone.same, fun e' he o i v' d' => ?_⟩
  · rw [← h.entries]
    unfold appendSide
    split
    · exact edgesIn_append_marker hflag
    · rfl
  · unfold appendSide
    rw [if_neg]
    rintro ⟨-, -, -, rfl, -⟩
    exact he hfit

theorem EntryLists.onSideWriter (h : EntryLists k undirected s log added)
    (hstep : s.onSide outer vlabel (fun g => .ok (g.createGraphWriter recycle epoch)) = .ok s') :
    KeepsEntries k undirected added fit s log s' := by
  obtain ⟨l, l', hone, -⟩ := onSide_cases hstep
  exact ⟨log, h.writer hstep, hone.same, .refl log⟩

theorem EntryLists.short (h : EntryLists k undirected s log added) (hl : s.labels[vlabel]? = some l) (outer : Bool)
    (v e : Nat) (d : Dir) : (log outer vlabel v e d).length < 2 ^ 64 := by
  obtain ⟨own, hgraph⟩ := (h.graph outer vlabel l hl).graph
  have hlength := hgraph.length_of_capacity ((h.graph outer vlabel l hl).small trivial) v e d
  exact Nat.lt_trans (Nat.lt_of_succ_lt hlength) (by decide)

theorem newest_lt {edges : List Edge} {n : Nat} (h : newest searched edges n = some loc) : loc < n := by
  induction n with
  | zero => cases h
  | succ n ih =>
    unfold newest at h
    split at h
    · split at h
      · rw [← Option.some.inj h]
        exact Nat.lt_succ_self n
      · exact Nat.lt_succ_of_lt (ih h)
    · exact Nat.lt_succ_of_lt (ih h)

theorem EntryLists.deleteEntry (h : EntryLists k undirected s log added) (hfit : fit e)
    (hdata : data.length = k.stride e)
    (hstep : s.onSide outer vlabel (fun g => g.deleteEntry epoch v e d searched data) = .ok s') :
    KeepsEntries k undirected added fit s log s' := by
  obtain ⟨l, l', hone, hdelete, hother, -⟩ := onSide_cases hstep
  obtain ⟨own, hgraph⟩ := (h.graph outer vlabel l hone.before).graph
  rcases deleteEntry_cases hgraph hdelete with ⟨-, hsame⟩ | ⟨loc, hloc, hput⟩
  · refine ⟨log, h.keep hone fun o hl => ?_, hone.same, .refl log⟩
    by_cases ho : o = outer
    · rw [ho] at hl ⊢
      rw [hsame]
      exact hl
    · rw [Bool.eq_not_of_ne ho] at hl ⊢
      rw [hother]
      exact hl
  · exact h.marker hfit (Nat.lt_trans (newest_lt hloc) (h.short hone.before outer v e d)) hdata hone hput hother

/-! ### Searches that find nothing -/

theorem SameSegments.writer (g : SegGraph) (recycle : Bool) (epoch : Nat) :
    SameSegments g (g.createGraphWriter recycle epoch) := by
  unfold SegGraph.createGraphWriter
  split
  · exact ⟨rfl, fun _ _ _ => rfl⟩
  · exact ⟨rfl, fun _ _ _ => rfl⟩

theorem SameLists.trans (h : SameLists s s') (h' : SameLists s' s'') : SameLists s s'' := by
  refine ⟨h.same.trans h'.same, fun i l'' hl'' => ?_⟩
  obtain ⟨l', hl', hside'⟩ := h'.side i l'' hl''
  obtain ⟨l, hl, hside⟩ := h.side i l' hl'
  exact ⟨l, hl, fun outer => ⟨(hside' outer).segments.trans (hside outer).segments,
    fun segId e d => ((hside' outer).locate segId e d).trans ((hside outer).locate segId e d)⟩⟩

theorem OneLabel.sameLists (hone : OneLabel vlabel l l' s s')
    (hside : ∀ outer, SameSegments (l.side outer) (l'.side outer)) : SameLists s s' := by
  refine ⟨hone.same, fun i m hm => ?_⟩
  rw [hone.after] at hm
  split at hm
  · rename_i hi
    rw [← Option.some.inj hm, hi]
    exact ⟨l, hone.before, hside⟩
  · exact ⟨m, hm, fun outer => ⟨rfl, fun _ _ _ => rfl⟩⟩

theorem FindsNothing.congr (h : FindsNothing s ref elabel d searched) (hsame : SameLists s s') :
    FindsNothing s' ref elabel d searched := by
  intro l' hl'
  obtain ⟨l, hl, hside⟩ := hsame.side _ l' hl'
  have hnone := h l hl
  dsimp only at hnone ⊢
  rw [(hside ref.outer).segments, (hside ref.outer).locate]
  exact hnone

theorem onSide_sameLists {f : SegGraph → Except Stop SegGraph} (hstep : s.onSide outer vlabel f = .ok s')
    (hf : ∀ l, s.labels[vlabel]? = some l → ∀ g', f (l.side outer) = .ok g' → SameSegments (l.side outer) g') :
    SameLists s s' := by
  obtain ⟨l, l', hone, hg, hother, -⟩ := onSide_cases hstep
  refine hone.sameLists fun o => ?_
  by_cases ho : o = outer
  · rw [ho]
    exact hf l hone.before _ hg
  · rw [Bool.eq_not_of_ne ho, hother]
    exact ⟨rfl, fun _ _ _ => rfl⟩

theorem FindsNothing.deleteEntry (h : FindsNothing s ref elabel d searched)
    (hlists : EntryLists k undirected s log added)
    (hstep : s.onSide ref.outer ref.vlabel (fun g => g.deleteEntry epoch ref.index elabel d searched data) = .ok s') :
    SameLists s s' ∧ EntryLists k undirected s' log added := by
  have hsame : ∀ l, s.labels[ref.vlabel]? = some l → ∀ g',
      (l.side ref.outer).deleteEntry epoch ref.index elabel d searched data = .ok g' → g' = l.side ref.outer := by
    intro l hl g' hdelete
    have hnone := h l hl
    unfold SegGraph.deleteEntry at hdelete
    dsimp only at hdelete hnone
    rw [hnone] at hdelete
    split at hdelete
    · cases hdelete
    · exact (Except.ok.inj hdelete).symm
  refine ⟨onSide_sameLists hstep fun l hl g' hg' => ?_, ?_⟩
  · rw [hsame l hl g' hg']
    exact ⟨rfl, fun _ _ _ => rfl⟩
  · obtain ⟨l, l', hone, hdelete, hother, -⟩ := onSide_cases hstep
    refine hlists.keep hone fun o hl => ?_
    by_cases ho : o = ref.outer
    · rw [ho] at hl ⊢
      rw [hsame l hone.before _ hdelete]
      exact hl
    · rw [Bool.eq_not_of_ne ho] at hl ⊢
      rw [hother]
      exact hl

/-! ### The deletions -/

theorem EntryLists.delEdge {r : GraphStore.EdgeRecord} {draws : GraphStore.Draws}
    (h : EntryLists k undirected s log added) (hfits : DelEdgeFits s r) (hstep : s.processDelEdge draws r = .ok s') :
    ∃ log', EntryLists k undirected s' log' added := by
  unfold GraphStore.processDelEdge at hstep
  split at hstep
  · rw [← Except.ok.inj hstep]
    exact ⟨log, h⟩
  · rename_i hsome
    obtain ⟨src, hsrc, hstep⟩ := bind_eq_ok hstep
    obtain ⟨dst, hdst, hstep⟩ := bind_eq_ok hstep
    obtain ⟨s1, hwriter, hstep⟩ := bind_eq_ok hstep
    obtain ⟨s2, hwriter', hstep⟩ := bind_eq_ok hstep
    obtain ⟨s3, hout, hin⟩ := bind_eq_ok hstep
    have h2 := (h.writer hwriter).writer hwriter'
    rcases hfits with hsize | hforeign | hnothing
    · have hdata : (zeros (GraphStore.delEdgePropBytes (s.edgeDtypes.getD r.elabel []))).length =
          k.stride r.elabel := by
        rw [h.stride, ← hsize]
        exact List.length_replicate
      obtain ⟨log3, h3, -⟩ :=
        @EntryLists.deleteEntry k undirected (fun _ => True) _ _ _ _ _ _ _ _ _ _ _ _ h2 trivial hdata hout
      obtain ⟨log4, h4, -⟩ :=
        @EntryLists.deleteEntry k undirected (fun _ => True) _ _ _ _ _ _ _ _ _ _ _ _ h3 trivial hdata hin
      exact ⟨log4, h4⟩
    · exact absurd hforeign hsome
    · obtain ⟨hsrcNothing, hdstNothing⟩ := hnothing src hsrc dst hdst
      have hsame : SameLists s s2 :=
        (onSide_sameLists hwriter fun l _ g' hg' => Except.ok.inj hg' ▸ SameSegments.writer _ _ _).trans
          (onSide_sameLists hwriter' fun l _ g' hg' => Except.ok.inj hg' ▸ SameSegments.writer _ _ _)
      have hholds : ∀ (s1 : GraphStore) offset, s1.idParser = s.idParser →
          s1.holdsOffset offset = s.holdsOffset offset := by
        intro s1 offset hparser
        funext vid
        unfold GraphStore.holdsOffset
        rw [hparser]
      rw [hholds s2 _ hsame.same.idParser] at hout
      obtain ⟨hsame3, h3⟩ := (hsrcNothing.congr hsame).deleteEntry h2 hout
      have hsame' := hsame.trans hsame3
      rw [hholds s3 _ hsame'.same.idParser] at hin
      exact ⟨log, ((hdstNothing.congr hsame').deleteEntry h3 hin).2⟩

def VertexMarkerFits (dtypes : List (List PropertyDataType)) (elabel : Nat) : Prop :=
  GraphStore.edgePropBytes (dtypes.getD elabel []) = GraphStore.edgeDataSize (dtypes.getD elabel [])

theorem EntryLists.deleteAtNeighbor {vid : Nat} (h : EntryLists k undirected s log added) (hfit : fit elabel)
    (hdata : data.length = k.stride elabel)
    (hstep : s.deleteAtNeighbor recycle epoch elabel dir ref data vid = .ok s') :
    KeepsEntries k undirected added fit s log s' := by
  unfold GraphStore.deleteAtNeighbor at hstep
  dsimp only at hstep
  obtain ⟨l, -, hstep⟩ := bind_eq_ok hstep
  split at hstep
  · obtain ⟨s1, hwriter, hdelete⟩ := bind_eq_ok hstep
    exact (@EntryLists.onSideWriter _ _ _ _ _ _ _ false _ _ _ h hwriter).trans fun log1 h1 _ _ =>
      @EntryLists.deleteEntry _ _ _ _ _ _ _ false _ _ _ _ _ _ _ h1 hfit hdata hdelete
  · split at hstep
    · rw [← Except.ok.inj hstep]
      exact .refl h
    · obtain ⟨s1, hwriter, hdelete⟩ := bind_eq_ok hstep
      exact (@EntryLists.onSideWriter _ _ _ _ _ _ _ true _ _ _ h hwriter).trans fun log1 h1 _ _ =>
        @EntryLists.deleteEntry _ _ _ _ _ _ _ true _ _ _ _ _ _ _ h1 hfit hdata hdelete

theorem EntryLists.deleteEdge {found : Nat × Nat} (h : EntryLists k undirected s log added)
    (hfit : VertexMarkerFits s.edgeDtypes elabel) (hloc : found.2 < 2 ^ 64)
    (hstep : s.deleteEdge recycle epoch elabel dir ref found = .ok s') :
    KeepsEntries k undirected added (VertexMarkerFits s.edgeDtypes) s log s' := by
  unfold GraphStore.deleteEdge at hstep
  dsimp only at hstep
  obtain ⟨s1, hput, hneighbor⟩ := bind_eq_ok hstep
  have hdata : (zeros (GraphStore.edgePropBytes (s.edgeDtypes.getD elabel []))).length = k.stride elabel := by
    rw [h.stride, ← show GraphStore.edgePropBytes _ = GraphStore.edgeDataSize _ from hfit]
    exact List.length_replicate
  obtain ⟨l, l', hone, hput, hother, -⟩ := onSide_cases hput
  exact (h.marker hfit hloc hdata hone hput hother).trans fun log1 h1 _ _ => h1.deleteAtNeighbor hfit hdata hneighbor

theorem EntryLists.deleteEdges {draws : GraphStore.VertexDraws} (h : EntryLists k undirected s log added)
    (hnone : ¬ VertexMarkerFits s.edgeDtypes elabel →
      liveEdges ((log ref.outer ref.vlabel ref.index elabel dir).map LogEntry.edge) = [])
    (hstep : s.deleteEdges draws epoch ref dir elabel = .ok s') :
    KeepsEntries k undirected added (VertexMarkerFits s.edgeDtypes) s log s' := by
  unfold GraphStore.deleteEdges at hstep
  obtain ⟨l, hl, hstep⟩ := bind_eq_ok hstep
  obtain ⟨found, hfound, hloop⟩ := bind_eq_ok hstep
  have hl := getLabel_eq hl
  obtain ⟨own, hgraph⟩ := (h.graph ref.outer ref.vlabel l hl).graph
  rw [edgesToDelete_spec hgraph] at hfound
  have hfound : liveEdges ((log ref.outer ref.vlabel ref.index elabel dir).map LogEntry.edge) = found :=
    Except.ok.inj hfound
  by_cases hfit : VertexMarkerFits s.edgeDtypes elabel
  · refine keepsEntries_foldlM h (fun x hx s1 log1 s2 h1 hsame _ hround => ?_) hloop
    have hmem : x.1 ∈ found := (List.mem_zipIdx' hx).2 ▸ List.getElem_mem _
    rw [← hfound] at hmem
    obtain ⟨edge, hedge, -⟩ := mem_liveEdges hmem
    have hlt := (List.getElem?_eq_some_iff.mp hedge).1
    rw [List.length_map] at hlt
    rw [← hsame.edgeDtypes] at hfit ⊢
    exact h1.deleteEdge hfit (Nat.lt_trans hlt (h.short hl _ _ _ _)) hround
  · rw [← hfound, hnone hfit] at hloop
    rw [← Except.ok.inj hloop]
    exact .refl h

theorem EntryLists.deleteFromTable (h : EntryLists k undirected s log added)
    (hstep : s.deleteFromTable recycle epoch ref = .ok s') :
    KeepsEntries k undirected added fit s log s' := by
  unfold GraphStore.deleteFromTable at hstep
  obtain ⟨l, hl, hstep⟩ := bind_eq_ok hstep
  have hl := getLabel_eq hl
  split at hstep
  · rw [← Except.ok.inj hstep]
    refine ⟨log, h.keep (oneLabel_setLabel hl _ _) fun o hside => ?_, ⟨rfl, rfl, rfl, rfl, rfl⟩, .refl log⟩
    cases o with
    | false => exact hside
    | true => exact hside.writer recycle epoch
  · rw [← Except.ok.inj hstep]
    refine ⟨log, h.keep (oneLabel_setLabel hl _ _) fun o hside => ?_, ⟨rfl, rfl, rfl, rfl, rfl⟩, .refl log⟩
    cases o with
    | false => exact hside.writer recycle epoch
    | true => exact hside

theorem EntryLists.deleteVertex {draws : GraphStore.VertexDraws} (h : EntryLists k undirected s log added)
    (hfits : DelVertexFits s ref) (hstep : s.deleteVertex draws epoch ref = .ok s') :
    ∃ log', EntryLists k undirected s' log' added := by
  unfold GraphStore.deleteVertex at hstep
  obtain ⟨s1, htable, hstep⟩ := bind_eq_ok hstep
  unfold GraphStore.deleteRelatedEdges at hstep
  dsimp only at hstep
  obtain ⟨s2, hout, hin⟩ := bind_eq_ok hstep
  have hlabel : ∃ l, s.labels[ref.vlabel]? = some l := by
    unfold GraphStore.deleteFromTable at htable
    obtain ⟨l, hl, -⟩ := bind_eq_ok htable
    exact ⟨l, getLabel_eq hl⟩
  obtain ⟨l, hl⟩ := hlabel
  obtain ⟨own, hgraph⟩ := (h.graph ref.outer ref.vlabel l hl).graph
  have hnone : ∀ elabel < s.edgeDtypes.length, ¬ VertexMarkerFits s.edgeDtypes elabel → ∀ d,
      liveEdges ((log ref.outer ref.vlabel ref.index elabel d).map LogEntry.edge) = [] := by
    intro elabel hlt hunfit d
    exact (hfits elabel hlt).resolve_left hunfit l hl d _ (edgesToDelete_spec hgraph)
  have hloop : ∀ s1 log1 s2 (d : Dir), EntryLists k undirected s1 log1 added → SameStore s s1 →
      OnlyFitting (VertexMarkerFits s.edgeDtypes) log log1 →
      (List.range s1.edgeDtypes.length).foldlM (fun s elabel => s.deleteEdges draws epoch ref d elabel) s1 = .ok s2 →
      KeepsEntries k undirected added (VertexMarkerFits s.edgeDtypes) s1 log1 s2 := by
    intro s1 log1 s2 d h1 hsame honly hloop
    refine keepsEntries_foldlM h1 (fun elabel hmem s3 log3 s4 h3 hsame3 honly3 hround => ?_) hloop
    have hdtypes : s3.edgeDtypes = s.edgeDtypes := hsame3.edgeDtypes.trans hsame.edgeDtypes
    rw [hsame.edgeDtypes] at hmem
    rw [← hdtypes]
    refine h3.deleteEdges (fun hunfit => ?_) hround
    rw [hdtypes] at hunfit
    rw [(honly.trans honly3) elabel hunfit]
    exact hnone elabel (List.mem_range.mp hmem) hunfit d
  obtain ⟨log1, h1, hsame1, honly1⟩ := h.deleteFromTable htable
  obtain ⟨log2, h2, hsame2, honly2⟩ := hloop s1 log1 s2 .eout h1 hsame1 honly1 hout
  rw [← hsame2.edgeDtypes] at hin
  obtain ⟨log3, h3, -⟩ := hloop s2 log2 s' .ein h2 (hsame1.trans hsame2) (honly1.trans honly2) hin
  exact ⟨log3, h3⟩

theorem EntryLists.delVertex {draws : GraphStore.VertexDraws} {vid : Nat} (h : EntryLists k undirected s log added)
    (hfits : ∀ v ∈ s.deletedVertex vid, DelVertexFits s v) (hstep : s.processDelVertex draws epoch vid = .ok s') :
    ∃ log', EntryLists k undirected s' log' added := by
  unfold GraphStore.processDelVertex at hstep
  unfold GraphStore.deletedVertex at hfits
  dsimp only at hstep hfits
  split at hstep
  · rename_i hmine
    rw [if_pos hmine] at hfits
    exact h.deleteVertex (hfits _ rfl) hstep
  · rename_i hforeign
    rw [if_neg hforeign] at hfits
    split at hstep
    · rw [← Except.ok.inj hstep]
      exact ⟨log, h⟩
    · rename_i ov hknown
      rw [hknown] at hfits
      exact h.deleteVertex (hfits _ rfl) hstep

/-! ### The run -/

theorem EntryLists.record {line : GraphStore.RecordDraws × Record} (h : EntryLists k undirected s log added)
    (hnarrow : k.Narrow) (hfits : MarkersFit s line.2) (hstep : s.applyRecord line = .ok s') :
    ∃ log', EntryLists k undirected s' log' (added ++ s.addedEntries line.2) := by
  obtain ⟨draws, rec⟩ := line
  cases rec with
  | addEdge cmd => exact h.addEdge hnarrow hstep
  | deleteEdge cmd =>
    rw [show s.addedEntries (.deleteEdge cmd) = [] from rfl, List.append_nil]
    exact h.delEdge hfits hstep
  | deleteVertex cmd =>
    rw [show s.addedEntries (.deleteVertex cmd) = [] from rfl, List.append_nil]
    exact h.delVertex hfits hstep
  | unsupported op => cases hstep
  | bulkloadEnd epoch =>
    rw [show s.addedEntries (.bulkloadEnd epoch) = [] from rfl, List.append_nil, ← Except.ok.inj hstep]
    exact ⟨log, h⟩
  | addVertex cmd =>
    rw [show s.addedEntries (.addVertex cmd) = [] from rfl, List.append_nil]
    obtain ⟨l, l', hone, hcases⟩ := insertInnerVertex_cases hstep
    refine ⟨log, h.keep hone fun o hl => ?_⟩
    rcases hcases with ⟨-, ⟨map, rfl⟩, -⟩ | ⟨-, hinserted⟩
    · exact hl
    · cases o with
      | false =>
        show ListGraph _ _ _ _ l'.graph _
        rw [hinserted.graph]
        exact (hl.writer _ _).newVertex
      | true =>
        show ListGraph _ _ _ _ l'.ovGraph _
        rw [hinserted.ovGraph]
        exact hl
  | updateVertex cmd =>
    rw [show s.addedEntries (.updateVertex cmd) = [] from rfl, List.append_nil]
    rcases updateInnerVertex_cases hstep with ⟨-, rfl⟩ | ⟨-, l, l', hone, hupdated⟩
    · exact ⟨log, h⟩
    · refine ⟨log, h.keep hone fun o hl => ?_⟩
      obtain ⟨property, rfl⟩ := hupdated.rest
      exact hl

theorem EntryLists.run {lines : List (GraphStore.RecordDraws × Record)} (h : EntryLists k undirected s log added)
    (hnarrow : k.Narrow) (hfits : AllMarkersFit s lines) (hrun : lines.foldlM GraphStore.applyRecord s = .ok s') :
    ∃ log', EntryLists k undirected s' log' (added ++ s.entriesOf lines) := by
  induction lines generalizing s log added with
  | nil =>
    rw [← Except.ok.inj hrun, show s.entriesOf [] = [] from rfl, List.append_nil]
    exact ⟨log, h⟩
  | cons line lines ih =>
    rw [List.foldlM_cons] at hrun
    obtain ⟨s1, hstep, hrest⟩ := bind_eq_ok hrun
    obtain ⟨hfirst, hfits⟩ := hfits
    obtain ⟨log1, h1⟩ := h.record hnarrow hfirst hstep
    have hentries : s.entriesOf (line :: lines) = s.addedEntries line.2 ++ s1.entriesOf lines := by
      unfold GraphStore.entriesOf
      rw [hstep]
      cases lines <;> rfl
    rw [hentries, ← List.append_assoc]
    exact ih h1 (hfits s1 hstep) hrest

end deletions

theorem entryLists_create {c : StoreConfig} {sb : SchemaBuild} (hcap : ∀ i, (c.label i).blockSize ≤ 2 ^ 35)
    (hov : ∀ i, (c.label i).ovBlockSize ≤ 2 ^ 35) :
    EntryLists (partitionOf c sb) (fun l => c.edgeIsUndirected.getD l false) (GraphStore.create c sb)
      (fun _ _ => emptyLog) [] := by
  refine ⟨rfl, rfl, fun _ => rfl, fun outer i l hl => ?_, fun _ _ _ _ _ => rfl⟩
  unfold GraphStore.create at hl
  dsimp only at hl
  rw [List.getElem?_map, List.getElem?_zipIdx] at hl
  obtain ⟨x, hx, rfl⟩ := Option.map_eq_some_iff.mp hl
  obtain ⟨layout, -, rfl⟩ := Option.map_eq_some_iff.mp hx
  rw [Nat.zero_add]
  have hgraph : ∀ capacity ≤ 2 ^ 35, ListGraph (fun _ => True) (partitionOf c sb).stride
      (fun l => c.edgeIsUndirected.getD l false) True (SegGraph.create capacity c.edgeIsUndirected) emptyLog := by
    intro capacity hle
    refine ⟨⟨_, create_inv _ _ (Nat.le_trans hle (by decide))⟩, fun l => rfl, fun _ => ?_⟩
    simp only [SegGraph.create, BlockManager.create_eq]
    exact hle
  cases outer with
  | false => exact hgraph _ (hcap i)
  | true => exact hgraph _ (hov i)

end Gart.Store
