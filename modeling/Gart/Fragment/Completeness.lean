import Gart.Lib.Grouping
import Gart.Fragment.Snapshot
import Gart.Store.InnerGraphs

/-!
# The edges of all fragments

A fragment reads the lists of its inner vertices and translates both ends of an edge to global ids. The
fragments of all partitions are compared with the log that every partition has applied.
-/

namespace Gart.Fragment
open Gart.ByteMemory Gart.Outcome Gart.Store Gart.Seggraph Gart.Grouping

/-! ### Global ids -/

/-- What a fragment has for the ids of its vertices. -/
structure VertexIds where
  vidParser : IdParser
  fid : Nat
  maxInnerOffsets : Nat → Int
  ovl2g : Nat → Nat → Nat

namespace VertexIds

def maxOuterIdOffset (f : VertexIds) : Nat := 2 ^ f.vidParser.offsetWidth - 1

/-- `IsInnerVertex` (`gart_fragment.h:1015-1019`) -/
def isInnerVertex (f : VertexIds) (v : Nat) : Bool :=
  decide ((f.vidParser.getOffset v : Int) ≤ f.maxInnerOffsets (f.vidParser.getLabelId v))

/-- `GetInnerVertexGid` (`gart_fragment.h:1114-1117`) -/
def getInnerVertexGid (f : VertexIds) (v : Nat) : Nat :=
  f.vidParser.generateId f.fid (f.vidParser.getLabelId v) (f.vidParser.getOffset v)

/-- `GetOuterVertexGid` (`gart_fragment.h:1108-1112`) -/
def getOuterVertexGid (f : VertexIds) (v : Nat) : Nat :=
  f.ovl2g (f.vidParser.getLabelId v) (f.maxOuterIdOffset - f.vidParser.getOffset v)

/-- `Vertex2Gid` (`gart_fragment.h:1003-1005`) -/
def vertex2Gid (f : VertexIds) (v : Nat) : Nat :=
  if f.isInnerVertex v then f.getInnerVertexGid v else f.getOuterVertexGid v

/-- The ids of a fragment of a store: `max_inner` of the blob is the number of vertices of the graph. -/
def ofStore (s : GraphStore) : VertexIds :=
  { vidParser := s.idParser
    fid := s.localPid
    maxInnerOffsets := fun label => ((s.labels[label]?.map fun l => l.graph.vertexId).getD 0 : Nat) - 1
    ovl2g := fun label => (s.labels[label]?.map LabelStore.ovl2g).getD fun _ => 0 }

end VertexIds

/-- An edge by its label and the global ids of its ends. -/
structure LoggedEdge where
  elabel : Nat
  src : Nat
  dst : Nat
  deriving DecidableEq

def LoggedEdge.at (elabel : Nat) (d : Dir) (vid other : Nat) : LoggedEdge :=
  match d with
  | .eout => ⟨elabel, vid, other⟩
  | .ein => ⟨elabel, other, vid⟩

def loggedEdge (r : GraphStore.EdgeRecord) : LoggedEdge := ⟨r.elabel, r.srcVid, r.dstVid⟩

def edgeOf (s : GraphStore) (vlabel v elabel : Nat) (d : Dir) (lid : Nat) : LoggedEdge :=
  let f := VertexIds.ofStore s
  .at elabel d (f.getInnerVertexGid (f.vidParser.generateId 0 vlabel v)) (f.vertex2Gid lid)

def readList (s : GraphStore) (l : LabelStore) (vlabel v elabel : Nat) (d : Dir) (e : Nat) :
    Except Fault (List LoggedEdge) := do
  let values ← readAdjList l.graph v elabel d (GraphStore.edgeDataSize (s.edgeDtypes.getD elabel [])) e
  return values.map fun value => edgeOf s vlabel v elabel d value.1

def fragmentEdges (d : Dir) (e : Nat) (s : GraphStore) : Except Fault (List LoggedEdge) :=
  collect (fun vlabel =>
    match s.labels[vlabel]? with
    | none => .ok []
    | some l => collect (fun v =>
        collect (fun elabel => readList s l vlabel v elabel d e) (List.range s.edgeDtypes.length))
          (List.range l.graph.vertexId)) (List.range s.labels.length)

/-! ### Local ids -/

/-- A global id of one of `P` partitions. -/
def IsGid (P gid : Nat) : Prop := ∃ fid < P, ∃ label offset, gid = (IdParser.init P).generateId fid label offset

/-- The maps of the outer vertices of a label, and the outer part of its vertex table: each outer vertex has one local
id and each local id one outer vertex. -/
structure OuterInverse (parser : IdParser) (vlabel : Nat) (l : LabelStore) : Prop where
  keyLid : ∀ gid ov, l.keyLid gid = some ov ↔ ov < l.ovGraph.vertexId ∧ l.ovl2g ov = gid
  ovg2l : ∀ gid lid, l.ovg2l gid = some lid ↔
      ∃ ov < l.ovGraph.vertexId, l.ovl2g ov = gid ∧ lid = outerLidOf parser vlabel ov
  gids : ∀ ov < l.ovGraph.vertexId, ∀ ov' < l.ovGraph.vertexId, l.ovl2g ov = l.ovl2g ov' → ov = ov'
  lids : ∀ ov < l.ovGraph.vertexId, ∀ ov' < l.ovGraph.vertexId,
    outerLidOf parser vlabel ov = outerLidOf parser vlabel ov' → ov = ov'
  tableLength : l.vtable.minOuterLocation + l.ovGraph.vertexId = l.vtable.size
  table : ∀ ov < l.ovGraph.vertexId, l.vtable.table (l.vtable.size - 1 - ov) = outerLidOf parser vlabel ov

section lids
variable {P pid gid lid vlabel v ov w : Nat} {k : Partition} {s : GraphStore} {view : Nat → LabelView} {l : LabelStore}
  {edges : Dir → List GraphStore.EdgeRecord}

theorem getLabelId_lt (v : Nat) : (IdParser.init P).getLabelId v < maxVlabels := by
  show BitField.extract 56 7 v < 128
  exact BitField.extract_lt

theorem getOffset_lt (hf : numToBitwidth P ≤ 56) (v : Nat) :
    (IdParser.init P).getOffset v < 2 ^ (56 - numToBitwidth P) := by
  show BitField.extract _ (IdParser.init P).offsetWidth v < _
  rw [IdParser.offsetWidth_eq hf]
  exact BitField.extract_lt

theorem IsGid.fields (hf : numToBitwidth P ≤ 56) (h : IsGid P gid) :
    (IdParser.init P).getFid gid < P ∧
      (IdParser.init P).generateId ((IdParser.init P).getFid gid) ((IdParser.init P).getLabelId gid)
        ((IdParser.init P).getOffset gid) = gid := by
  obtain ⟨fid, hfid, label, offset, rfl⟩ := h
  have hlt : fid < 2 ^ numToBitwidth P := IdParser.lt_two_pow_numToBitwidth hfid
  refine ⟨?_, IdParser.generateId_fields hf (IdParser.generateId_lt hf)⟩
  rw [IdParser.getFid_generateId hf hlt]
  exact hfid

/-- The tables of a partition are not longer than the offsets of its ids count. -/
def FitsIds (k : Partition) (P : Nat) : Prop :=
  k.parser = IdParser.init P ∧ ∀ i, k.tableSize i ≤ 2 ^ (IdParser.init P).offsetWidth

theorem ofStore_label (hl : s.labels[vlabel]? = some l) :
    (VertexIds.ofStore s).maxInnerOffsets vlabel = (l.graph.vertexId : Int) - 1 ∧
      (VertexIds.ofStore s).ovl2g vlabel = l.ovl2g := by
  unfold VertexIds.ofStore
  dsimp only
  rw [hl]
  exact ⟨rfl, rfl⟩

theorem vertex2Gid_inner (h : EdgesInv k s view w edges) (hf : numToBitwidth P ≤ 56) (hids : FitsIds k P)
    (hl : s.labels[vlabel]? = some l) (hlabel : vlabel < maxVlabels) (hv : v < (view vlabel).inner)
    (hoffset : v < 2 ^ (56 - numToBitwidth P)) :
    (VertexIds.ofStore s).vertex2Gid (k.parser.generateId 0 vlabel v) = k.parser.generateId k.pid vlabel v ∧
      (VertexIds.ofStore s).getInnerVertexGid (k.parser.generateId 0 vlabel v) =
          k.parser.generateId k.pid vlabel v := by
  obtain ⟨hparser, -⟩ := hids
  have hidParser : (VertexIds.ofStore s).vidParser = IdParser.init P := h.store.idParser.trans hparser
  have hfid : (VertexIds.ofStore s).fid = k.pid := h.store.localPid
  have hgid : (VertexIds.ofStore s).getInnerVertexGid (k.parser.generateId 0 vlabel v) =
      k.parser.generateId k.pid vlabel v := by
    unfold VertexIds.getInnerVertexGid
    rw [hidParser, hfid, hparser, IdParser.getLabelId_generateId hf hlabel, IdParser.getOffset_generateId hf hoffset]
  have hinner : (VertexIds.ofStore s).isInnerVertex (k.parser.generateId 0 vlabel v) = true := by
    unfold VertexIds.isInnerVertex
    rw [hidParser, hparser, IdParser.getLabelId_generateId hf hlabel, IdParser.getOffset_generateId hf hoffset,
      (ofStore_label hl).1, (h.store.label vlabel l hl).inner]
    exact decide_eq_true (by omega)
  refine ⟨?_, hgid⟩
  unfold VertexIds.vertex2Gid
  rw [if_pos hinner, hgid]

theorem vertex2Gid_outer (h : EdgesInv k s view w edges) (hf : numToBitwidth P ≤ 56) (hids : FitsIds k P)
    (hl : s.labels[vlabel]? = some l) (hlabel : vlabel < maxVlabels) (hov : (view vlabel).outer[ov]? = some gid) :
    (VertexIds.ofStore s).vertex2Gid (outerLidOf k.parser vlabel ov) = gid := by
  obtain ⟨hparser, htable⟩ := hids
  have hidParser : (VertexIds.ofStore s).vidParser = IdParser.init P := h.store.idParser.trans hparser
  have hinv := h.store.label vlabel l hl
  have hroom := hinv.table.room
  have hsize := htable vlabel
  have hlt := (List.getElem?_eq_some_iff.mp hov).1
  have hwidth := IdParser.offsetWidth_eq hf
  rw [hwidth] at hsize
  have hoffset : 2 ^ (56 - numToBitwidth P) - 1 - ov < 2 ^ (56 - numToBitwidth P) := by omega
  unfold VertexIds.vertex2Gid VertexIds.isInnerVertex VertexIds.getOuterVertexGid VertexIds.maxOuterIdOffset outerLidOf
  rw [hidParser, hparser, hwidth, IdParser.getLabelId_generateId hf hlabel, IdParser.getOffset_generateId hf hoffset,
    (ofStore_label hl).1, (ofStore_label hl).2, hinv.inner, if_neg]
  · have hback : 2 ^ (56 - numToBitwidth P) - 1 - (2 ^ (56 - numToBitwidth P) - 1 - ov) = ov := by omega
    rw [hback]
    exact hinv.maps.ovl2g ov gid hov
  · rw [decide_eq_true_iff]
    omega

theorem vertex2Gid_of_hasLid (h : EdgesInv k s view w edges) (hf : numToBitwidth P ≤ 56) (hids : FitsIds k P)
    (hgid : IsGid P gid) (hknown : k.parser.getLabelId gid < k.labels)
    (hend : k.parser.getFid gid = k.pid → InnerEnd k view gid) (hlid : HasLid k view gid lid) :
    (VertexIds.ofStore s).vertex2Gid lid = gid := by
  have hlabel : k.parser.getLabelId gid < maxVlabels := by
    rw [hids.1]
    exact getLabelId_lt gid
  rw [← h.store.labels] at hknown
  have hl := List.getElem?_eq_getElem hknown
  rcases hlid with ⟨hfid, rfl⟩ | ⟨hfid, ov, hov, rfl⟩
  · have hoffset : k.parser.getOffset gid < 2 ^ (56 - numToBitwidth P) := by
      rw [hids.1]
      exact getOffset_lt hf gid
    rw [(vertex2Gid_inner h hf hids hl hlabel (hend hfid) hoffset).1, ← hfid, hids.1]
    exact (hgid.fields hf).2
  · exact vertex2Gid_outer h hf hids hl hlabel hov

theorem outerInverse_of_inv (h : LabelInv k vlabel l (view vlabel) w) (hf : numToBitwidth P ≤ 56) (hids : FitsIds k P) :
    OuterInverse k.parser vlabel l := by
  obtain ⟨hparser, htable⟩ := hids
  have houter := h.outer
  have hroom := h.table.room
  have hsize := htable vlabel
  have hwidth := IdParser.offsetWidth_eq hf
  have hat : ∀ ov gid, (view vlabel).outer[ov]? = some gid ↔ ov < l.ovGraph.vertexId ∧ l.ovl2g ov = gid := by
    intro ov gid
    constructor
    · intro hov
      refine ⟨?_, h.maps.ovl2g ov gid hov⟩
      rw [houter]
      exact (List.getElem?_eq_some_iff.mp hov).1
    · rintro ⟨hlt, rfl⟩
      rw [houter] at hlt
      have hget := List.getElem?_eq_getElem hlt
      rw [h.maps.ovl2g ov _ hget]
      exact hget
  refine ⟨fun gid ov => ?_, fun gid lid => ?_, fun ov hov ov' hov' hsame => ?_, fun ov hov ov' hov' hsame => ?_, ?_,
    fun ov hov => ?_⟩
  · rw [h.maps.keyLid, hat]
  · rw [h.maps.ovg2l]
    constructor
    · rintro ⟨ov, hov, rfl⟩
      obtain ⟨hlt, hgid⟩ := (hat ov gid).mp hov
      exact ⟨ov, hlt, hgid, rfl⟩
    · rintro ⟨ov, hlt, hgid, rfl⟩
      exact ⟨ov, (hat ov gid).mpr ⟨hlt, hgid⟩, rfl⟩
  · have hget := (hat ov _).mpr ⟨hov, rfl⟩
    have hget' := (hat ov' _).mpr ⟨hov', rfl⟩
    rw [hsame] at hget
    have hkey := (h.maps.keyLid _ ov).mpr hget
    rw [(h.maps.keyLid _ ov').mpr hget'] at hkey
    exact (Option.some.inj hkey).symm
  · rw [houter] at hov hov'
    rw [hwidth] at hsize
    unfold outerLidOf at hsame
    rw [hparser, hwidth] at hsame
    have hoffset := congrArg (IdParser.init P).getOffset hsame
    rw [IdParser.getOffset_generateId hf (by omega), IdParser.getOffset_generateId hf (by omega)] at hoffset
    omega
  · rw [houter, h.table.sameSize]
    exact h.table.minOuterLocation
  · rw [houter] at hov
    rw [h.table.sameSize]
    exact h.table.entry ov hov

end lids

/-! ### Lists -/

section lists
variable {P w e vlabel v elabel : Nat} {k : Partition} {s : GraphStore} {view : Nat → LabelView} {l : LabelStore}
  {log : List Record} {d : Dir}

theorem loggedEdge_eq (r : GraphStore.EdgeRecord) (d : Dir) : loggedEdge r = .at r.elabel d (r.vid d) (r.other d) := by
  cases d <;> rfl

theorem other_eq (r : GraphStore.EdgeRecord) (d : Dir) : ∃ d', r.other d = r.vid d' := by
  cases d
  · exact ⟨.ein, rfl⟩
  · exact ⟨.eout, rfl⟩

theorem entry_reads (h : Applied k s view log w) (hf : numToBitwidth P ≤ 56) (hids : FitsIds k P)
    (hgids : ∀ r ∈ edgesOf log, ∀ d, IsGid P (r.vid d)) (hl : s.labels[vlabel]? = some l) (hv : v < l.graph.vertexId)
    {r : GraphStore.EdgeRecord} {entry : LogEntry} (hr : r ∈ edgesOf log) (hon : OnVertex k vlabel v elabel d r)
    (hstands : Stands k view d entry r) : edgeOf s vlabel v elabel d entry.edge.dst = loggedEdge r := by
  obtain ⟨hfid, hlabel, hoffset, helabel⟩ := hon
  obtain ⟨d', hother⟩ := other_eq r d
  obtain ⟨-, hknown⟩ := h.ends r hr d hfid
  have hidParser : (VertexIds.ofStore s).vidParser = k.parser := h.edges.store.idParser
  have hparser := hids.1
  have hvlabel : vlabel < maxVlabels := by
    rw [← hlabel, hparser]
    exact getLabelId_lt _
  have hlt : v < 2 ^ (56 - numToBitwidth P) := by
    rw [← hoffset, hparser]
    exact getOffset_lt hf _
  rw [(h.edges.store.label vlabel l hl).inner] at hv
  have hsrc : (VertexIds.ofStore s).getInnerVertexGid ((VertexIds.ofStore s).vidParser.generateId 0 vlabel v) =
      r.vid d := by
    rw [hidParser, (vertex2Gid_inner h.edges hf hids hl hvlabel hv hlt).2, ← hfid, ← hlabel, ← hoffset, hparser]
    exact ((hgids r hr d).fields hf).2
  have hlabels : ∀ d, k.parser.getLabelId (r.vid d) < k.labels := by
    intro d
    cases d
    · exact hknown.src
    · exact hknown.dst
  have hdst : (VertexIds.ofStore s).vertex2Gid entry.edge.dst = r.other d := by
    unfold Stands at hstands
    rw [hother] at hstands ⊢
    exact vertex2Gid_of_hasLid h.edges hf hids (hgids r hr d') (hlabels d') (fun hmine => (h.ends r hr d' hmine).1)
      hstands
  unfold edgeOf
  dsimp only
  rw [loggedEdge_eq r d, hsrc, hdst, helabel]

theorem readList_spec (h : Applied k s view log w) (hf : numToBitwidth P ≤ 56) (hids : FitsIds k P) (hnarrow : k.Narrow)
    (hgids : ∀ r ∈ edgesOf log, ∀ d, IsGid P (r.vid d)) (hle : w ≤ e) (hl : s.labels[vlabel]? = some l)
    (hv : v < l.graph.vertexId) :
    ∃ ys, readList s l vlabel v elabel d e = .ok ys ∧
      ys.Perm (((edgesOf log).filter fun r => OnVertex k vlabel v elabel d r).map loggedEdge) := by
  have hgraph := (h.edges.store.label vlabel l hl).graph
  obtain ⟨own, hinv⟩ := hgraph.graph
  have hlists := h.edges.lists d vlabel v elabel
  generalize hentries : (view vlabel).log v elabel d = entries at hlists
  have hstride := h.edges.store.stride elabel
  obtain ⟨values, hvalues, hreads⟩ :=
    (readAdjList_spec hinv v elabel d (Nat.le_refl (k.stride elabel)) (fun _ => rfl) e).exists_ok
  rw [hentries] at hreads
  have hall : upToEpoch e entries = entries := by
    refine List.filter_eq_self.mpr fun entry hentry => decide_eq_true ?_
    rw [← hentries] at hentry
    exact Nat.le_trans (hgraph.epochs v elabel d entry hentry) hle
  -- each entry is joined with the edge of the log that it stands for
  have hjoined : List.Forall₂ (fun entry r => entry.edge.dst < deleteFlag ∧
      edgeOf s vlabel v elabel d entry.edge.dst = loggedEdge r) entries
      ((edgesOf log).filter fun r => OnVertex k vlabel v elabel d r) := by
    have hmem : ∀ r ∈ (edgesOf log).filter fun r => OnVertex k vlabel v elabel d r,
        r ∈ edgesOf log ∧ OnVertex k vlabel v elabel d r := by
      intro r hr
      obtain ⟨hr, hon⟩ := List.mem_filter.mp hr
      exact ⟨hr, of_decide_eq_true hon⟩
    refine List.Forall₂.flip (((List.forall₂_and_left _ _).mpr ⟨hmem, hlists.flip⟩).imp ?_)
    rintro r entry ⟨⟨hr, hon⟩, hstands⟩
    exact ⟨HasLid.lt hstands hnarrow, entry_reads h hf hids hgids hl hv hr hon hstands⟩
  have hplain := ((List.forall₂_and_left _ _).mp hjoined).1
  have hsame := ((List.forall₂_and_left _ _).mp hjoined).2
  rw [hall] at hreads
  have hdata := reads_data (by rw [List.length_map]) (fun edge hedge => by
    obtain ⟨entry, hentry, rfl⟩ := List.mem_map.mp hedge
    exact hplain entry hentry) hreads
  have hrun : readList s l vlabel v elabel d e =
      .ok (values.map fun value => edgeOf s vlabel v elabel d value.1) := by
    unfold readList
    rw [← hstride, hvalues]
    rfl
  refine ⟨_, hrun, ?_⟩
  have htexts : entries.map (fun entry => edgeOf s vlabel v elabel d entry.edge.dst) =
      ((edgesOf log).filter fun r => OnVertex k vlabel v elabel d r).map loggedEdge := by
    rw [← List.forall₂_eq_eq_eq, List.forall₂_map_left_iff, List.forall₂_map_right_iff]
    exact hsame
  rw [← htexts, hdata, ← List.map_take, List.take_length, List.map_reverse, List.map_map, List.map_map]
  exact List.reverse_perm _

theorem group_onVertex : group GraphStore.EdgeRecord.elabel
    (group (fun r => k.parser.getOffset (r.vid d))
      (group (fun r => k.parser.getLabelId (r.vid d))
        (group (fun r => k.parser.getFid (r.vid d)) (edgesOf log) k.pid) vlabel) v) elabel =
    (edgesOf log).filter fun r => OnVertex k vlabel v elabel d r := by
  unfold group OnVertex
  rw [List.filter_filter, List.filter_filter, List.filter_filter]
  apply List.filter_congr
  intro r _
  by_cases hfid : k.parser.getFid (r.vid d) = k.pid
  · simp [hfid, Bool.and_comm, Bool.and_left_comm]
  · simp [hfid]

theorem fragmentEdges_spec (h : Applied k s view log w) (hf : numToBitwidth P ≤ 56) (hids : FitsIds k P)
    (hnarrow : k.Narrow) (hgids : ∀ r ∈ edgesOf log, ∀ d, IsGid P (r.vid d)) (hle : w ≤ e) :
    ∃ ys, fragmentEdges d e s = .ok ys ∧
      ys.Perm ((group (fun r => k.parser.getFid (r.vid d)) (edgesOf log) k.pid).map loggedEdge) := by
  have hstore := h.edges.store
  refine collect_groups (fun r => k.parser.getLabelId (r.vid d)) List.nodup_range ?_ ?_
  · intro r hr
    obtain ⟨hr, hfid⟩ := mem_group.mp hr
    obtain ⟨-, hknown⟩ := h.ends r hr d hfid
    rw [List.mem_range, hstore.labels]
    cases d
    · exact hknown.src
    · exact hknown.dst
  intro vlabel hvlabel
  obtain ⟨l, hl⟩ : ∃ l, s.labels[vlabel]? = some l := ⟨_, List.getElem?_eq_getElem (List.mem_range.mp hvlabel)⟩
  rw [hl]
  dsimp only
  refine collect_groups (fun r => k.parser.getOffset (r.vid d)) List.nodup_range ?_ ?_
  · intro r hr
    obtain ⟨hr, hlabel⟩ := mem_group.mp hr
    obtain ⟨hr, hfid⟩ := mem_group.mp hr
    obtain ⟨hend, -⟩ := h.ends r hr d hfid
    unfold InnerEnd at hend
    rw [hlabel] at hend
    rw [List.mem_range, (hstore.label vlabel l hl).inner]
    exact hend
  intro v hv
  refine collect_groups GraphStore.EdgeRecord.elabel List.nodup_range ?_ ?_
  · intro r hr
    obtain ⟨hr, -⟩ := mem_group.mp hr
    obtain ⟨hr, -⟩ := mem_group.mp hr
    obtain ⟨hr, hfid⟩ := mem_group.mp hr
    rw [List.mem_range, hstore.edgeLabels]
    exact (h.ends r hr d hfid).2.elabel
  intro elabel _
  rw [group_onVertex]
  exact readList_spec h hf hids hnarrow hgids hle hl (List.mem_range.mp hv)

end lists

/-! ### All partitions -/

/-- One of `P` partitions, with directed labels and tables that the offsets of ids count. -/
structure PartitionConfig (P pid : Nat) (c : StoreConfig) : Prop where
  totalPartitions : c.totalPartitions = P
  localPid : c.localPid = pid
  blockSize : ∀ i, (c.label i).blockSize ≤ 2 ^ 64
  ovBlockSize : ∀ i, (c.label i).ovBlockSize ≤ 2 ^ 35
  table : ∀ i, (c.label i).vertexCapacity + (c.label i).ovVertexCapacity ≤ 2 ^ (IdParser.init P).offsetWidth
  directed : ∀ l, c.edgeIsUndirected.getD l false = false

def EndpointsFirst (log : List Record) : Prop :=
  ∀ before cmd after, log = before ++ .addEdge cmd :: after → cmd.srcVid ∈ gidsOf before ∧ cmd.dstVid ∈ gidsOf before

def allEdges (P : Nat) (stores : Nat → GraphStore) (d : Dir) (e : Nat) : Except Fault (List LoggedEdge) :=
  collect (fun pid => fragmentEdges d e (stores pid)) (List.range P)

section all
variable {P e : Nat} {config : Nat → StoreConfig} {sb : SchemaBuild} {log : List Record}
  {lines : Nat → List (GraphStore.Draws × Record)} {stores : Nat → GraphStore}

theorem EndpointsFirst.isGid (h : EndpointsFirst log) (hgids : ∀ gid ∈ gidsOf log, IsGid P gid)
    {r : GraphStore.EdgeRecord} (hr : r ∈ edgesOf log) (d : Dir) : IsGid P (r.vid d) := by
  obtain ⟨record, hrecord, hr⟩ := List.mem_filterMap.mp hr
  cases record with
  | addEdge cmd =>
    obtain ⟨before, after, hsplit⟩ := List.append_of_mem hrecord
    obtain ⟨hsrc, hdst⟩ := h before cmd after hsplit
    have hsub : ∀ gid ∈ gidsOf before, IsGid P gid := by
      intro gid hgid
      refine hgids gid ?_
      rw [hsplit, gidsOf_append]
      exact List.mem_append_left _ hgid
    rw [← Option.some.inj hr]
    cases d
    · exact hsub _ hsrc
    · exact hsub _ hdst
  | _ => cases hr

/-- However many partitions apply a log in which each edge follows its endpoints, their fragments have each logged edge
once in the lists of each direction, with its global ids, and the maps of their outer vertices are inverse. -/
theorem allEdges_perm_log (hP : P < 2 ^ 31) (hconfig : ∀ pid < P, PartitionConfig P pid (config pid))
    (hfirst : EndpointsFirst log) (hgids : ∀ gid ∈ gidsOf log, IsGid P gid) (hepochs : ∀ r ∈ log, r.epoch ≤ e)
    (hcounts : ∀ pid < P, (partitionOf (config pid) sb).Counts (edgesOf log))
    (hlines : ∀ pid < P, (lines pid).map Prod.snd = log)
    (hrun : ∀ pid < P, (lines pid).foldlM GraphStore.applyAdd (GraphStore.create (config pid) sb) = .ok (stores pid)) :
    (∀ d, ∃ edges, allEdges P stores d e = .ok edges ∧ edges.Perm ((edgesOf log).map loggedEdge)) ∧
      ∀ pid < P, ∀ vlabel l, (stores pid).labels[vlabel]? = some l → OuterInverse (IdParser.init P) vlabel l := by
  have hf : numToBitwidth P ≤ 56 := Nat.le_trans (IdParser.numToBitwidth_le (by decide) (Nat.le_of_lt hP))
    (by decide : 31 ≤ 56)
  have happlied : ∀ pid < P, ∃ view, Applied (partitionOf (config pid) sb) (stores pid) view log e := by
    intro pid hpid
    have hc := hconfig pid hpid
    obtain ⟨view, h⟩ := (@applied_create (config pid) sb e hc.blockSize hc.ovBlockSize hc.directed).run
      (partitionOf_narrow (by rw [hc.totalPartitions]; exact hP)) (fun line hline => hepochs _ (by
        rw [← hlines pid hpid]
        exact List.mem_map_of_mem hline)) (by rw [hlines pid hpid]; exact hcounts pid hpid) (hrun pid hpid)
    rw [hlines pid hpid] at h
    exact ⟨view, h⟩
  have hids : ∀ pid < P, FitsIds (partitionOf (config pid) sb) P := by
    intro pid hpid
    have hc := hconfig pid hpid
    exact ⟨congrArg IdParser.init hc.totalPartitions, hc.table⟩
  refine ⟨fun d => ?_, fun pid hpid vlabel l hl => ?_⟩
  · refine collect_groups (fun r => (IdParser.init P).getFid (r.vid d)) List.nodup_range ?_ ?_
    · intro r hr
      exact List.mem_range.mpr ((hfirst.isGid hgids hr d).fields hf).1
    · intro pid hpid
      have hpid := List.mem_range.mp hpid
      have hc := hconfig pid hpid
      obtain ⟨view, h⟩ := happlied pid hpid
      have hedges := @fragmentEdges_spec P e e _ _ view log d h hf (hids pid hpid)
        (partitionOf_narrow (by rw [hc.totalPartitions]; exact hP)) (fun r hr => hfirst.isGid hgids hr) (Nat.le_refl e)
      rw [(hids pid hpid).1, show (partitionOf (config pid) sb).pid = pid from hc.localPid] at hedges
      exact hedges
  · obtain ⟨view, h⟩ := happlied pid hpid
    have hinverse := outerInverse_of_inv (h.edges.store.label vlabel l hl) hf (hids pid hpid)
    rw [(hids pid hpid).1] at hinverse
    exact hinverse

end all

def oneRelation : GraphMapping :=
  { vertexTypes := [{ name := "person", tableSchema := [], propInfo := [] }]
    edgeTypes := [{ name := "knows", tableSchema := [], propInfo := [] }] }

def ofTwo (pid : Nat) : StoreConfig :=
  { totalPartitions := 2
    localPid := pid
    label := fun _ => { vertexCapacity := 4, blockSize := 2 ^ 30, ovVertexCapacity := 4, ovBlockSize := 2 ^ 30
                        externalIdIsString := true, blankTable := fun _ => 0 }
    edgeIsUndirected := []
    strings := { capacity := 100, content := fun _ => 0, capacity_le := hundred_le }
    regions := { capacity := 2 ^ 20, blank := fun _ => 0 }
    globalVertexMap := false
    assignOther := fun _ m _ _ => m }

/-- A vertex in each partition, an edge between them and one that stays in the first. -/
def crossing : List Record :=
  [.addVertex { writeEpoch := 1, vid := 0, externalId := "a", props := [] },
    .addVertex { writeEpoch := 1, vid := 1, externalId := "b", props := [] },
    .addEdge { writeEpoch := 1, elabel := 0, srcVid := 0, dstVid := 1, srcExternalId := "a", dstExternalId := "b"
               eprop := [] },
    .addEdge { writeEpoch := 2, elabel := 0, srcVid := 0, dstVid := 0, srcExternalId := "a", dstExternalId := "a"
               eprop := [] }]

def crossingLines : List (GraphStore.Draws × Record) := crossing.map fun r => (⟨true, false, true⟩, r)

theorem allEdges_perm_log_crossing : ∃ sb stores, initGraphSchema oneRelation = .ok sb ∧
    (∀ pid < 2, crossingLines.foldlM GraphStore.applyAdd (GraphStore.create (ofTwo pid) sb) = .ok (stores pid)) ∧
    (∀ d, ∃ edges, allEdges 2 stores d 2 = .ok edges ∧ edges.Perm [⟨0, 0, 1⟩, ⟨0, 0, 0⟩]) ∧
      ∀ pid < 2, ∀ vlabel l, (stores pid).labels[vlabel]? = some l → OuterInverse (IdParser.init 2) vlabel l := by
  have hruns : ((initGraphSchema oneRelation).toOption.bind fun sb =>
      (crossingLines.foldlM GraphStore.applyAdd (GraphStore.create (ofTwo 0) sb)).toOption.bind fun _ =>
      (crossingLines.foldlM GraphStore.applyAdd (GraphStore.create (ofTwo 1) sb)).toOption.map fun _ => true) =
        some true := by
    decide +kernel
  obtain ⟨sb, hsb, hruns⟩ := Option.bind_eq_some_iff.mp hruns
  obtain ⟨s0, hs0, hruns⟩ := Option.bind_eq_some_iff.mp hruns
  obtain ⟨s1, hs1, -⟩ := Option.map_eq_some_iff.mp hruns
  have hrun : ∀ pid < 2, crossingLines.foldlM GraphStore.applyAdd (GraphStore.create (ofTwo pid) sb) =
      .ok (if pid = 0 then s0 else s1) := by
    intro pid hpid
    match pid, hpid with
    | 0, _ => exact ok_of_toOption hs0
    | 1, _ => exact ok_of_toOption hs1
  have hconfig : ∀ pid < 2, PartitionConfig 2 pid (ofTwo pid) := fun pid _ =>
    ⟨rfl, rfl, fun i => Nat.pow_le_pow_right (by decide) (by decide),
        fun i => Nat.pow_le_pow_right (by decide) (by decide),
      fun i => (by decide : 4 + 4 ≤ 2 ^ (IdParser.init 2).offsetWidth), fun l => rfl⟩
  have hfirst : EndpointsFirst crossing := by
    intro before cmd after hsplit
    match before, hsplit with
    | [_, _], hsplit =>
      cases hsplit
      decide
    | [_, _, _], hsplit =>
      cases hsplit
      decide
    | [], hsplit => cases hsplit
    | [_], hsplit => cases hsplit
    | _ :: _ :: _ :: _ :: before, hsplit => simp [crossing] at hsplit
  have hgids : ∀ gid ∈ gidsOf crossing, IsGid 2 gid := by
    intro gid hgid
    have hcases : gid = 0 ∨ gid = 1 := by simpa [gidsOf, crossing] using hgid
    rcases hcases with rfl | rfl
    · exact ⟨0, by decide, 0, 0, by decide⟩
    · exact ⟨1, by decide, 0, 0, by decide⟩
  refine ⟨sb, _, ok_of_toOption hsb, hrun, ?_⟩
  exact @allEdges_perm_log 2 2 ofTwo sb crossing (fun _ => crossingLines) _ (by decide) hconfig hfirst hgids (by decide)
    (fun pid _ => Or.inl fun i => Nat.pow_le_pow_right (by decide) (by decide)) (fun pid _ => rfl) hrun

end Gart.Fragment
