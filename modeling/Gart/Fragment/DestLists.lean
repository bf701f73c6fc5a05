import Gart.Lib.PackedLists
import Gart.Fragment.TableReader

/-!
# The destination lists (interfaces/fragment/gart_fragment.h)

For each vertex label and edge label the remote fragments of the inner vertices are packed in one array, in the order of
the vertex iterator. The array is read with the offset of a vertex.
-/

namespace Gart.Fragment
open Gart.Outcome Gart.Seggraph Gart.PackedLists Gart.Store

/-- `while (it.valid()) { it.neighbor(); it.next(); }` -/
def EdgeIterator.neighbors : Nat → EdgeIterator → Except Fault (List Nat)
  | 0, it => if it.valid then .error .endlessChain else .ok []
  | fuel + 1, it =>
    if it.valid then do
      let it' ← it.next
      let rest ← neighbors fuel it'
      .ok (it.neighbor :: rest)
    else .ok []

/-- What the lists are made from (`gart_fragment.h:36-1510`). -/
structure GartFragment where
  ids : VertexIds
  vertexLabelNum : Nat
  edgeLabelNum : Nat
  vmeta : Nat → VTableMeta
  vertexTable : Nat → Nat → Nat
  vertexTableLen : Nat → Nat
  /-- the edge blobs of the inner and of the outer vertices of a label -/
  innerGraph : Nat → SegGraph
  outerGraph : Nat → SegGraph
  edgePropSize : Nat → Nat
  readEpoch : Nat

/-- `fid_list`, and `fid_list_offset` as positions in it. -/
structure DestLists where
  fidList : List Nat
  fidListOffset : List Nat
  deriving DecidableEq, Repr

/-- `std::set::insert`; the set is kept in its order. -/
def insertFid (fid : Nat) (dstset : List Nat) : List Nat :=
  if fid ∈ dstset then dstset else dstset.orderedInsert (· ≤ ·) fid

namespace GartFragment
variable (f : GartFragment)

/-- `GetFragId` (`gart_fragment.h:580-589`) -/
def getFragId (u : Nat) : Nat :=
  if f.ids.isInnerVertex u then f.ids.fid else f.ids.vidParser.getFid (f.ids.getOuterVertexGid u)

def innerVertices (label : Nat) : Option (List Nat) :=
  Gart.Fragment.innerVertices (f.vmeta label) (f.vertexTable label) (f.vertexTableLen label)

/-- `GetIncomingAdjList` and `GetOutgoingAdjList` -/
def getAdjList (d : Dir) (v eLabel : Nat) : Except Fault EdgeIterator :=
  let label := f.ids.vidParser.getLabelId v
  let offset := f.ids.vidParser.getOffset v
  if f.ids.isInnerVertex v then
    Gart.Fragment.getAdjList (f.innerGraph label) offset eLabel d (f.edgePropSize eLabel) f.readEpoch
  else
    Gart.Fragment.getAdjList (f.outerGraph label) (f.ids.maxOuterIdOffset - offset) eLabel d (f.edgePropSize eLabel)
      f.readEpoch

def neighbors (d : Dir) (v eLabel : Nat) : Except Fault (List Nat) := do
  let it ← f.getAdjList d v eLabel
  it.neighbors it.segHeader.blockSize

def insertRemote (dstset nbrs : List Nat) : List Nat :=
  nbrs.foldl (fun dstset nbr =>
    if f.getFragId nbr ≠ f.ids.fid then insertFid (f.getFragId nbr) dstset else dstset) dstset

/-- The loop over the vertices at a vertex and its `idx`, with `fid_list` and `id_num`. -/
def packVertex (inEdge outEdge : Bool) (eLabel : Nat) (packed : List Nat × List Nat) (vertex : Nat × Nat) :
    Except Fault (List Nat × List Nat) := do
  let incoming ← if inEdge then f.neighbors .ein vertex.1 eLabel else .ok []
  let dstset := f.insertRemote [] incoming
  if outEdge then
    let outgoing ← f.neighbors .eout vertex.1 eLabel
    let dstset := f.insertRemote dstset outgoing
    .ok (packed.1 ++ dstset, packed.2.set vertex.2 dstset.length)
  else .ok packed

/-- A vertex label and an edge label of `initDestFidList` -/
def initLists (inEdge outEdge : Bool) (vertices : List Nat) (eLabel : Nat) : Except Fault DestLists := do
  let packed ← vertices.zipIdx.foldlM (f.packVertex inEdge outEdge eLabel) ([], List.replicate vertices.length 0)
  .ok { fidList := packed.1, fidListOffset := offsetTable packed.2 }

def initLabel (inEdge outEdge : Bool) (vLabel : Nat) : Except Fault (List DestLists) :=
  match f.innerVertices vLabel with
  | none => .error .endlessChain
  | some vertices => (List.range f.edgeLabelNum).mapM (f.initLists inEdge outEdge vertices)

/-- `initDestFidList` (`gart_fragment.h:1329-1390`) -/
def initDestFidList (inEdge outEdge : Bool) : Except Fault (List (List DestLists)) :=
  (List.range f.vertexLabelNum).mapM (f.initLabel inEdge outEdge)

/-- `IEDests`, `OEDests` and `IOEDests` (`gart_fragment.h:1163-1185`); `none` where an index is out of range. -/
def dests (lists : List (List DestLists)) (v eLabel : Nat) : Option (List Nat) := do
  let ofLabel ← lists[f.ids.vidParser.getLabelId v]?
  let cell ← ofLabel[eLabel]?
  listAt cell.fidList cell.fidListOffset (f.ids.vidParser.getOffset v)

end GartFragment

/-- The strategies of `PrepareToRunApp` that need lists. -/
inductive MessageStrategy
  | alongEdgeToOuterVertex
  | alongIncomingEdgeToOuterVertex
  | alongOutgoingEdgeToOuterVertex
  deriving DecidableEq, Repr

def MessageStrategy.inEdge : MessageStrategy → Bool
  | alongEdgeToOuterVertex => true
  | alongIncomingEdgeToOuterVertex => true
  | alongOutgoingEdgeToOuterVertex => false

def MessageStrategy.outEdge : MessageStrategy → Bool
  | alongEdgeToOuterVertex => true
  | alongIncomingEdgeToOuterVertex => false
  | alongOutgoingEdgeToOuterVertex => true

def MessageStrategy.along (strategy : MessageStrategy) : Dir → Bool
  | .ein => strategy.inEdge
  | .eout => strategy.outEdge

/-! ### The set of one vertex -/

section sets
variable {fid x : Nat} {dstset nbrs : List Nat} {f : GartFragment}

theorem mem_insertFid : x ∈ insertFid fid dstset ↔ x = fid ∨ x ∈ dstset := by
  unfold insertFid
  split
  · rename_i hmem
    constructor
    · exact Or.inr
    · rintro (rfl | hx)
      · exact hmem
      · exact hx
  · exact List.mem_orderedInsert (· ≤ ·)

theorem nodup_insertFid (h : dstset.Nodup) : (insertFid fid dstset).Nodup := by
  unfold insertFid
  split
  · exact h
  · rename_i hmem
    exact (List.perm_orderedInsert (· ≤ ·) fid dstset).nodup_iff.mpr (List.nodup_cons.mpr ⟨hmem, h⟩)

theorem mem_insertRemote : x ∈ f.insertRemote dstset nbrs ↔
    x ∈ dstset ∨ x ≠ f.ids.fid ∧ ∃ nbr ∈ nbrs, f.getFragId nbr = x := by
  unfold GartFragment.insertRemote
  induction nbrs generalizing dstset with
  | nil => simp
  | cons nbr nbrs ih =>
    rw [List.foldl_cons, ih]
    by_cases hremote : f.getFragId nbr ≠ f.ids.fid
    · rw [if_pos hremote, mem_insertFid]
      constructor
      · rintro ((rfl | hx) | ⟨hx, u, hu, rfl⟩)
        · exact Or.inr ⟨hremote, nbr, List.mem_cons_self, rfl⟩
        · exact Or.inl hx
        · exact Or.inr ⟨hx, u, List.mem_cons_of_mem _ hu, rfl⟩
      · rintro (hx | ⟨hx, u, hu, rfl⟩)
        · exact Or.inl (Or.inr hx)
        · rcases List.mem_cons.mp hu with rfl | hu
          · exact Or.inl (Or.inl rfl)
          · exact Or.inr ⟨hx, u, hu, rfl⟩
    · rw [if_neg hremote]
      refine or_congr_right ⟨?_, ?_⟩
      · rintro ⟨hx, u, hu, rfl⟩
        exact ⟨hx, u, List.mem_cons_of_mem _ hu, rfl⟩
      · rintro ⟨hx, u, hu, rfl⟩
        rcases List.mem_cons.mp hu with rfl | hu
        · exact absurd hx hremote
        · exact ⟨hx, u, hu, rfl⟩

theorem nodup_insertRemote (h : dstset.Nodup) : (f.insertRemote dstset nbrs).Nodup := by
  unfold GartFragment.insertRemote
  induction nbrs generalizing dstset with
  | nil => exact h
  | cons nbr nbrs ih =>
    rw [List.foldl_cons]
    split
    · exact ih (nodup_insertFid h)
    · exact ih h

end sets

/-! ### Packing -/

namespace GartFragment
variable (f : GartFragment)

def neighborsOf (d : Dir) (v eLabel : Nat) : List Nat := (f.neighbors d v eLabel).toOption.getD []

/-- A remote fragment with neighbours of a vertex, in the directions of a strategy. -/
def IsDest (strategy : MessageStrategy) (v eLabel fid : Nat) : Prop :=
  fid ≠ f.ids.fid ∧ ∃ d, strategy.along d = true ∧ ∃ nbr ∈ f.neighborsOf d v eLabel, f.getFragId nbr = fid

/-- The iterators over the inner vertices and over their edges come to an end. -/
def Readable : Prop :=
  ∀ vLabel < f.vertexLabelNum, ∃ vertices, f.innerVertices vLabel = some vertices ∧
    ∀ v ∈ vertices, ∀ eLabel < f.edgeLabelNum, ∀ d, f.neighbors d v eLabel = .ok (f.neighborsOf d v eLabel)

def packed (strategy : MessageStrategy) (eLabel v : Nat) : List Nat :=
  if strategy.outEdge then
    f.insertRemote (f.insertRemote [] (if strategy.inEdge then f.neighborsOf .ein v eLabel else []))
      (f.neighborsOf .eout v eLabel)
  else []

variable {f} {strategy : MessageStrategy} {eLabel v fid : Nat} {vertices : List Nat}

theorem nodup_packed : (f.packed strategy eLabel v).Nodup := by
  unfold packed
  split
  · exact nodup_insertRemote (nodup_insertRemote List.nodup_nil)
  · exact List.nodup_nil

theorem mem_packed : fid ∈ f.packed strategy eLabel v ↔ strategy.outEdge = true ∧ f.IsDest strategy v eLabel fid := by
  unfold packed IsDest
  by_cases hout : strategy.outEdge = true
  · rw [if_pos hout, mem_insertRemote, mem_insertRemote]
    constructor
    · rintro ((hnil | ⟨hne, nbr, hnbr, rfl⟩) | ⟨hne, nbr, hnbr, rfl⟩)
      · cases hnil
      · split at hnbr
        · exact ⟨hout, hne, .ein, ‹_›, nbr, hnbr, rfl⟩
        · cases hnbr
      · exact ⟨hout, hne, .eout, hout, nbr, hnbr, rfl⟩
    · rintro ⟨-, hne, d, hd, nbr, hnbr, rfl⟩
      cases d with
      | ein =>
        rw [if_pos (show strategy.inEdge = true from hd)]
        exact Or.inl (Or.inr ⟨hne, nbr, hnbr, rfl⟩)
      | eout => exact Or.inr ⟨hne, nbr, hnbr, rfl⟩
  · rw [if_neg hout]
    simp [hout]

theorem packVertex_eq {fidList idNum : List Nat} {idx : Nat} (hidx : idNum[idx]? = some 0)
    (hread : ∀ d, f.neighbors d v eLabel = .ok (f.neighborsOf d v eLabel)) :
    f.packVertex strategy.inEdge strategy.outEdge eLabel (fidList, idNum) (v, idx) =
      .ok (fidList ++ f.packed strategy eLabel v, idNum.set idx (f.packed strategy eLabel v).length) := by
  have hsame : idNum.set idx 0 = idNum := by
    refine List.ext_getElem? fun j => ?_
    rw [List.getElem?_set]
    split
    · rename_i heq
      rw [← heq, hidx, if_pos (List.getElem?_eq_some_iff.mp hidx).1]
    · rfl
  unfold packVertex packed
  rw [hread, hread]
  cases strategy
  · rfl
  · simp only [MessageStrategy.inEdge, MessageStrategy.outEdge, if_true, Bool.false_eq_true, if_false, List.append_nil,
      List.length_nil, hsame]
    rfl
  · rfl

theorem foldlM_packVertex {fidList lengths : List Nat}
    (hread : ∀ v ∈ vertices, ∀ d, f.neighbors d v eLabel = .ok (f.neighborsOf d v eLabel)) :
    (vertices.zipIdx lengths.length).foldlM (f.packVertex strategy.inEdge strategy.outEdge eLabel)
        (fidList, lengths ++ List.replicate vertices.length 0) =
      .ok (fidList ++ (vertices.map (f.packed strategy eLabel)).flatten,
        lengths ++ (vertices.map (f.packed strategy eLabel)).map List.length) := by
  induction vertices generalizing fidList lengths with
  | nil => simp; rfl
  | cons v vertices ih =>
    have hnext := @ih (fidList ++ f.packed strategy eLabel v) (lengths ++ [(f.packed strategy eLabel v).length])
      fun u hu => hread u (List.mem_cons_of_mem _ hu)
    rw [List.zipIdx_cons, List.foldlM_cons, packVertex_eq (by simp) (hread v List.mem_cons_self)]
    rw [List.length_append, List.length_singleton] at hnext
    have hset : (lengths ++ List.replicate (v :: vertices).length 0).set lengths.length
        (f.packed strategy eLabel v).length =
          lengths ++ [(f.packed strategy eLabel v).length] ++ List.replicate vertices.length 0 := by
      rw [List.length_cons, List.replicate_succ, List.set_append_right _ _ (Nat.le_refl _), Nat.sub_self]
      simp
    rw [hset]
    exact hnext.trans (by simp)

variable (f) in
def cell (strategy : MessageStrategy) (vertices : List Nat) (eLabel : Nat) : DestLists :=
  { fidList := (vertices.map (f.packed strategy eLabel)).flatten
    fidListOffset := offsetTable ((vertices.map (f.packed strategy eLabel)).map List.length) }

theorem initLists_eq (hread : ∀ v ∈ vertices, ∀ d, f.neighbors d v eLabel = .ok (f.neighborsOf d v eLabel)) :
    f.initLists strategy.inEdge strategy.outEdge vertices eLabel = .ok (f.cell strategy vertices eLabel) := by
  have hfold := @foldlM_packVertex f strategy eLabel vertices [] [] hread
  rw [List.length_nil, List.nil_append, List.nil_append, List.nil_append] at hfold
  unfold initLists
  rw [hfold]
  rfl

theorem initLabel_eq {vLabel : Nat} (h : f.Readable) (hlabel : vLabel < f.vertexLabelNum) : ∃ cells,
    f.initLabel strategy.inEdge strategy.outEdge vLabel = .ok cells ∧
      ∀ vertices, f.innerVertices vLabel = some vertices →
        ∀ eLabel < f.edgeLabelNum, cells[eLabel]? = some (f.cell strategy vertices eLabel) := by
  obtain ⟨vertices, hvertices, hread⟩ := h vLabel hlabel
  obtain ⟨cells, hcells, hall⟩ := mapM_range_of_ok (R := fun eLabel c => c = f.cell strategy vertices eLabel)
    fun eLabel helabel => ⟨_, initLists_eq fun v hv => hread v hv eLabel helabel, rfl⟩
  unfold initLabel
  rw [hvertices]
  refine ⟨cells, hcells, fun vertices' heq eLabel helabel => ?_⟩
  obtain ⟨c, hget, rfl⟩ := hall eLabel helabel
  rw [hget, Option.some.inj heq]

theorem initDestFidList_eq (h : f.Readable) : ∃ lists,
    f.initDestFidList strategy.inEdge strategy.outEdge = .ok lists ∧
      ∀ v eLabel vertices, f.ids.vidParser.getLabelId v < f.vertexLabelNum → eLabel < f.edgeLabelNum →
        f.innerVertices (f.ids.vidParser.getLabelId v) = some vertices →
          f.dests lists v eLabel = vertices[f.ids.vidParser.getOffset v]?.map (f.packed strategy eLabel) := by
  obtain ⟨lists, hlists, hall⟩ := mapM_range_of_ok fun vLabel hlabel => @initLabel_eq f strategy vLabel h hlabel
  refine ⟨lists, hlists, fun v eLabel vertices hlabel helabel hvertices => ?_⟩
  obtain ⟨cells, hget, hcells⟩ := hall _ hlabel
  unfold dests
  rw [hget]
  show (cells[eLabel]?.bind fun cell => _) = _
  rw [hcells vertices hvertices eLabel helabel]
  exact (listAt_flatten _ _).trans List.getElem?_map

variable (f) in
def DestsExact (strategy : MessageStrategy) (lists : List (List DestLists)) (v eLabel : Nat) : Prop :=
  ∃ fids, f.dests lists v eLabel = some fids ∧ fids.Nodup ∧ ∀ fid, fid ∈ fids ↔ f.IsDest strategy v eLabel fid

variable (f) in
/-- The offset of the vertex is the place of a vertex in the iteration, and that one has the same remote fragments;
without outgoing edges nothing is noted and the vertex has no remote fragment. -/
def AtItsPlace (strategy : MessageStrategy) (vertices : List Nat) (v eLabel : Nat) : Prop :=
  ∃ u, vertices[f.ids.vidParser.getOffset v]? = some u ∧
    ∀ fid, f.IsDest strategy v eLabel fid ↔ strategy.outEdge = true ∧ f.IsDest strategy u eLabel fid

/-- The lists are made of every readable fragment, and the list of a visible inner vertex is right if and only if it is
the list of the vertex that is read at the place its offset counts. -/
theorem destsExact_iff (h : f.Readable) (strategy : MessageStrategy) : ∃ lists,
    f.initDestFidList strategy.inEdge strategy.outEdge = .ok lists ∧
      ∀ v eLabel vertices, f.ids.vidParser.getLabelId v < f.vertexLabelNum → eLabel < f.edgeLabelNum →
        f.innerVertices (f.ids.vidParser.getLabelId v) = some vertices → v ∈ vertices →
          (f.DestsExact strategy lists v eLabel ↔ f.AtItsPlace strategy vertices v eLabel) := by
  obtain ⟨lists, hlists, hdests⟩ := @initDestFidList_eq f strategy h
  refine ⟨lists, hlists, fun v eLabel vertices hlabel helabel hvertices _ => ?_⟩
  unfold DestsExact AtItsPlace
  rw [hdests v eLabel vertices hlabel helabel hvertices]
  constructor
  · rintro ⟨fids, hfids, -, hmem⟩
    obtain ⟨u, hu, rfl⟩ := Option.map_eq_some_iff.mp hfids
    exact ⟨u, hu, fun fid => (hmem fid).symm.trans mem_packed⟩
  · rintro ⟨u, hu, hsame⟩
    refine ⟨f.packed strategy eLabel u, ?_, nodup_packed, fun fid => mem_packed.trans (hsame fid).symm⟩
    rw [hu]
    rfl

end GartFragment

/-! ### The fragment of a store -/

def GartFragment.ofStore (s : GraphStore) (epoch : Nat) : GartFragment :=
  { ids := VertexIds.ofStore s
    vertexLabelNum := s.labels.length
    edgeLabelNum := s.edgeDtypes.length
    vmeta := fun label => (s.labels[label]?.map vtableMeta).getD ⟨0, 0, 0, 0, 0⟩
    vertexTable := fun label => (s.labels[label]?.map fun l => l.vtable.table).getD fun _ => 0
    vertexTableLen := fun label => (s.labels[label]?.map fun l => l.vtable.size).getD 0
    innerGraph := fun label => (s.labels[label]?.map LabelStore.graph).getD (SegGraph.create 0 [])
    outerGraph := fun label => (s.labels[label]?.map LabelStore.ovGraph).getD (SegGraph.create 0 [])
    edgePropSize := fun eLabel => GraphStore.edgeDataSize (s.edgeDtypes.getD eLabel [])
    readEpoch := epoch }

section readable
variable {k : Partition} {s : GraphStore} {view : Nat → LabelView} {w epoch : Nat}

theorem EdgeIterator.neighbors_of_toList {fuel : Nat} {it : EdgeIterator} {values : List (Nat × ByteMemory.Bytes)}
    (h : it.toList fuel = .ok values) : it.neighbors fuel = .ok (values.map Prod.fst) := by
  induction fuel generalizing it values with
  | zero =>
    unfold EdgeIterator.toList at h
    unfold EdgeIterator.neighbors
    split at h
    · cases h
    · rename_i hvalid
      cases h
      rw [if_neg hvalid]
      rfl
  | succ fuel ih =>
    unfold EdgeIterator.toList at h
    unfold EdgeIterator.neighbors
    split at h
    · rename_i hvalid
      obtain ⟨data, -, h⟩ := bind_eq_ok h
      obtain ⟨it', hnext, h⟩ := bind_eq_ok h
      obtain ⟨rest, hrest, h⟩ := bind_eq_ok h
      cases h
      rw [if_pos hvalid, hnext]
      show (it'.neighbors fuel >>= fun rest => _) = _
      rw [ih hrest]
      rfl
    · rename_i hvalid
      cases h
      rw [if_neg hvalid]
      rfl

theorem VertexIterator.scan_le {table slot : Nat → Nat} {insert : Nat → List Nat → List Nat} (r : Nat)
    (offsets : List Nat) : (VertexIterator.scan table slot insert r offsets).1 ≤ r := by
  induction r generalizing offsets with
  | zero => exact Nat.le_refl _
  | succ r ih =>
    unfold VertexIterator.scan
    dsimp only
    split
    · exact Nat.le_succ_of_le (ih _)
    · split
      · exact Nat.le_refl _
      · split
        · exact Nat.le_refl _
        · exact Nat.le_succ_of_le (ih _)

theorem VertexIterator.toList_ends {n : Nat} {it : VertexIterator} (haddrs : it.addrs.length ≠ 2)
    (hn : it.cur.remaining ≤ n) : ∃ vertices, it.toList (n + 1) = some vertices := by
  induction n generalizing it with
  | zero =>
    have hvalid : it.valid = (false, it) := by
      unfold valid switchNextRange
      rw [if_pos (Nat.le_zero.mp hn), if_pos fun h => haddrs h.2]
    exact ⟨[], by rw [toList, hvalid]⟩
  | succ n ih =>
    by_cases hzero : it.cur.remaining = 0
    · have hvalid : it.valid = (false, it) := by
        unfold valid switchNextRange
        rw [if_pos hzero, if_pos fun h => haddrs h.2]
      exact ⟨[], by rw [toList, hvalid]⟩
    · have hvalid : it.valid = (true, it) := if_neg hzero
      have hnext : it.next.addrs.length ≠ 2 ∧ it.next.cur.remaining ≤ n := by
        unfold next findNextValidCursor
        dsimp only
        split
        · have hle := @scan_le it.table id MarkerLog.push (it.cur.remaining - 1) it.innerDeleteOffset
          exact ⟨haddrs, Nat.le_trans hle (by omega)⟩
        · have hle := @scan_le it.table (outerSlot it.len) pushSmallest (it.cur.remaining - 1) it.outerDeleteOffset
          exact ⟨haddrs, Nat.le_trans hle (by omega)⟩
      obtain ⟨vertices, hrest⟩ := ih hnext.1 hnext.2
      exact ⟨it.vertex :: vertices, by rw [toList, hvalid]; simp [hrest]⟩

/-- Lists of well-formed graphs can be read, and the vertices of tables that have room for them. -/
theorem GartFragment.readable_of_graphs {f : GartFragment} {stride : Nat → Nat}
    (hinner : ∀ label, ∃ own log, GraphInv (fun _ => True) stride (f.innerGraph label) own log NoHole)
    (houter : ∀ label, ∃ own log, GraphInv (fun _ => True) stride (f.outerGraph label) own log NoHole)
    (hsize : ∀ eLabel, f.edgePropSize eLabel = stride eLabel)
    (hrange : ∀ label < f.vertexLabelNum, (f.vmeta label).maxInnerLocation ≤ f.vertexTableLen label) : f.Readable := by
  have hlist : ∀ g : SegGraph, (∃ own log, GraphInv (fun _ => True) stride g own log NoHole) → ∀ v eLabel d, ∃ nbrs,
      (Gart.Fragment.getAdjList g v eLabel d (f.edgePropSize eLabel) f.readEpoch >>= fun it =>
        it.neighbors it.segHeader.blockSize) = .ok nbrs := by
    rintro g ⟨own, log, hinv⟩ v eLabel d
    obtain ⟨values, hvalues, -⟩ := (readAdjList_spec hinv v eLabel d (Nat.le_refl (stride eLabel)) (fun _ => rfl)
      f.readEpoch).exists_ok
    rw [hsize]
    obtain ⟨it, hit, hvalues⟩ := bind_eq_ok hvalues
    rw [hit]
    exact ⟨_, EdgeIterator.neighbors_of_toList hvalues⟩
  intro vLabel hlabel
  obtain ⟨vertices, hvertices⟩ : ∃ vertices, f.innerVertices vLabel = some vertices := by
    refine VertexIterator.toList_ends (show 1 ≠ 2 by decide) (Nat.le_trans ?_ (hrange vLabel hlabel))
    exact VertexIterator.scan_le _ _
  refine ⟨vertices, hvertices, fun v _ eLabel _ d => ?_⟩
  have hread : ∃ nbrs, f.neighbors d v eLabel = .ok nbrs := by
    unfold neighbors getAdjList
    dsimp only
    split
    · exact hlist _ (hinner _) _ _ _
    · exact hlist _ (houter _) _ _ _
  obtain ⟨nbrs, hnbrs⟩ := hread
  unfold neighborsOf
  rw [hnbrs]
  rfl

theorem readable_ofStore (h : StoreInv k s view w)
    (hrange : ∀ (label : Nat) l, s.labels[label]? = some l → (vtableMeta l).maxInnerLocation ≤ l.vtable.size) :
    (GartFragment.ofStore s epoch).Readable := by
  have hempty : ∃ own log, GraphInv (fun _ => True) k.stride (SegGraph.create 0 []) own log NoHole :=
    ⟨_, _, create_inv 0 [] (Nat.zero_le _)⟩
  refine @GartFragment.readable_of_graphs (GartFragment.ofStore s epoch) k.stride (fun label => ?_) (fun label => ?_)
    (fun eLabel => (h.stride eLabel).symm) fun label hlabel => ?_
  · unfold GartFragment.ofStore
    dsimp only
    cases hl : s.labels[label]? with
    | none => exact hempty
    | some l =>
      obtain ⟨own, hinv⟩ := (h.label label l hl).graph.graph
      exact ⟨own, _, hinv⟩
  · unfold GartFragment.ofStore
    dsimp only
    cases hl : s.labels[label]? with
    | none => exact hempty
    | some l =>
      obtain ⟨own, hinv⟩ := (h.label label l hl).ovGraph.graph
      exact ⟨own, _, hinv⟩
  · have hl := List.getElem?_eq_getElem (show label < s.labels.length from hlabel)
    unfold GartFragment.ofStore
    dsimp only
    rw [hl]
    exact hrange label _ hl

end readable

/-- A single inner vertex is at its place. -/
theorem destsExact_iff_crossing : ∃ sb s lists, initGraphSchema oneRelation = .ok sb ∧
    crossingLines.foldlM GraphStore.applyAdd (GraphStore.create (ofTwo 0) sb) = .ok s ∧
    (GartFragment.ofStore s 2).initDestFidList false true = .ok lists ∧
    (GartFragment.ofStore s 2).DestsExact .alongOutgoingEdgeToOuterVertex lists 0 0 := by
  have hruns : ((initGraphSchema oneRelation).toOption.bind fun sb =>
      (crossingLines.foldlM GraphStore.applyAdd (GraphStore.create (ofTwo 0) sb)).toOption.bind fun s =>
      ((GartFragment.ofStore s 2).innerVertices 0).map fun vertices => decide (vertices = [0] ∧
        s.labels.length = 1 ∧ s.edgeDtypes.length = 1 ∧ (GartFragment.ofStore s 2).ids.vidParser.getLabelId 0 = 0 ∧
        (GartFragment.ofStore s 2).ids.vidParser.getOffset 0 = 0 ∧
        ∀ l ∈ s.labels, (vtableMeta l).maxInnerLocation ≤ l.vtable.size)) = some true := by
    decide +kernel
  obtain ⟨sb, hsb, hruns⟩ := Option.bind_eq_some_iff.mp hruns
  obtain ⟨s, hs, hruns⟩ := Option.bind_eq_some_iff.mp hruns
  obtain ⟨vertices, hvertices, hruns⟩ := Option.map_eq_some_iff.mp hruns
  obtain ⟨rfl, hlabels, helabels, hlabel, hoffset, hrange⟩ := of_decide_eq_true hruns
  obtain ⟨view, happlied⟩ := (@applied_create (ofTwo 0) sb 2 (fun i => Nat.pow_le_pow_right (by decide) (by decide))
    (fun i => Nat.pow_le_pow_right (by decide) (by decide)) fun l => rfl).run (partitionOf_narrow (by decide))
      (by decide) (Or.inl fun i => Nat.pow_le_pow_right (by decide) (by decide)) (ok_of_toOption hs)
  obtain ⟨lists, hlists, hiff⟩ := GartFragment.destsExact_iff
    (@readable_ofStore _ s view 2 2 happlied.edges.store fun label l hl => hrange l (List.mem_of_getElem? hl))
    .alongOutgoingEdgeToOuterVertex
  refine ⟨sb, s, lists, ok_of_toOption hsb, ok_of_toOption hs, hlists, ?_⟩
  refine (hiff 0 0 [0] ?_ ?_ ?_ (List.mem_singleton_self 0)).mpr ⟨0, ?_, fun fid => ?_⟩
  · rw [hlabel]
    exact (by omega : 0 < s.labels.length)
  · exact (by omega : 0 < s.edgeDtypes.length)
  · rw [hlabel, hvertices]
  · rw [hoffset]
    rfl
  · exact (and_iff_right rfl).symm

/-- An edge to an outer vertex and one from it, at the first of two inner vertices. -/
def bothWays : List (GraphStore.Draws × Record) :=
  (metLog ++ [Record.addEdge
    { writeEpoch := 1, elabel := 0, srcVid := 1, dstVid := 0, srcExternalId := "c", dstExternalId := "a"
      eprop := [] }]).map fun r => (⟨true, false, true⟩, r)

theorem GartFragment.not_destsExact {f : GartFragment} {strategy : MessageStrategy} {lists : List (List DestLists)}
    {v eLabel fid : Nat} (hnone : f.dests lists v eLabel = some []) (hremote : fid ≠ f.ids.fid)
    (hall : ∀ d, (f.neighborsOf d v eLabel).map f.getFragId = [fid]) : ¬ f.DestsExact strategy lists v eLabel := by
  rintro ⟨fids, hfids, -, hmem⟩
  rw [hnone] at hfids
  cases hfids
  obtain ⟨d, hd⟩ : ∃ d, strategy.along d = true := by
    cases strategy
    · exact ⟨.ein, rfl⟩
    · exact ⟨.ein, rfl⟩
    · exact ⟨.eout, rfl⟩
  have hfid : fid ∈ (f.neighborsOf d v eLabel).map f.getFragId := by rw [hall d]; exact List.mem_singleton_self fid
  obtain ⟨nbr, hnbr, hfrag⟩ := List.mem_map.mp hfid
  cases (hmem fid).mpr ⟨hremote, d, hd, nbr, hnbr, hfrag⟩

/-- Whatever the strategy, the first vertex is given the list of the second. -/
theorem dests_bothWays : ∃ sb s, initGraphSchema oneRelation = .ok sb ∧
    bothWays.foldlM GraphStore.applyAdd (GraphStore.create (ofTwo 0) sb) = .ok s ∧
    ∀ strategy : MessageStrategy, ∃ lists vertices,
      (GartFragment.ofStore s 1).initDestFidList strategy.inEdge strategy.outEdge = .ok lists ∧
      (GartFragment.ofStore s 1).innerVertices 0 = some vertices ∧ 0 ∈ vertices ∧
      ¬ (GartFragment.ofStore s 1).DestsExact strategy lists 0 0 := by
  have hruns : ((initGraphSchema oneRelation).toOption.bind fun sb =>
      (bothWays.foldlM GraphStore.applyAdd (GraphStore.create (ofTwo 0) sb)).toOption.bind fun s =>
      ((GartFragment.ofStore s 1).innerVertices 0).map fun vertices => decide (0 ∈ vertices ∧
        (∀ d ∈ [Dir.ein, .eout], ((GartFragment.ofStore s 1).neighborsOf d 0 0).map
          (GartFragment.ofStore s 1).getFragId = [1]) ∧ 1 ≠ (GartFragment.ofStore s 1).ids.fid ∧
        ∀ strategy ∈ [MessageStrategy.alongEdgeToOuterVertex, .alongIncomingEdgeToOuterVertex,
            .alongOutgoingEdgeToOuterVertex],
          ((GartFragment.ofStore s 1).initDestFidList strategy.inEdge strategy.outEdge).toOption.map
            (fun lists => (GartFragment.ofStore s 1).dests lists 0 0) = some (some []))) = some true := by
    decide +kernel
  obtain ⟨sb, hsb, hruns⟩ := Option.bind_eq_some_iff.mp hruns
  obtain ⟨s, hs, hruns⟩ := Option.bind_eq_some_iff.mp hruns
  obtain ⟨vertices, hvertices, hruns⟩ := Option.map_eq_some_iff.mp hruns
  obtain ⟨hvisible, hall, hremote, hlists⟩ := of_decide_eq_true hruns
  refine ⟨sb, s, ok_of_toOption hsb, ok_of_toOption hs, fun strategy => ?_⟩
  have hstrategy := hlists strategy (by cases strategy <;> decide)
  obtain ⟨lists, hrun, hnone⟩ := Option.map_eq_some_iff.mp hstrategy
  exact ⟨lists, vertices, ok_of_toOption hrun, hvertices, hvisible,
    GartFragment.not_destsExact hnone hremote fun d => hall d (by cases d <;> decide)⟩

end Gart.Fragment
