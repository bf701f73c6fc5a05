import Gart.Converter.Resolve
import Gart.Store.Record
import Gart.Store.StoreSteps
import Gart.Store.VertexRun

/-!
# Gids and local ids

The converter numbers the vertices of a label round-robin over the fragments. A store counts
the vertices that arrive twice, in `new_vertex` of the segment graph and in `getNewOffset` of
the property store. The three counts are never compared.
-/

namespace Gart.Store
open Gart.ByteMemory Gart.Outcome Gart.Fragment Gart.Converter

/-! ### Lines of inserted vertices -/

def bytesOf (text : String) : Bytes := text.toUTF8.data.toList

namespace GraphStore

/-- `process_add_vertex` (`add_vertex.cc:38-46`); epochs are not negative. -/
def processAddVertex (s : GraphStore) (recycle : Bool) (cmd : VertexCmd) : Except StoreFault GraphStore :=
  s.insertInnerVertex recycle cmd.writeEpoch.toNat cmd.vid (bytesOf cmd.externalId) (cmd.props.map bytesOf)

/-- `apply_log_to_store_` for the line of an inserted vertex (`bench_runner.cc:566-743`). -/
def applyInsert (s : GraphStore) (line : Bool × String) : Except StoreFault GraphStore :=
  match readLog line.2 with
  | .ok (.addVertex cmd) => s.processAddVertex line.1 cmd
  | _ => .error .unsupported

end GraphStore

/-- The entries that the second step makes of some entries with their epochs. -/
def numberEntries (cfg : ParserConfig) (es : List (LogEntry × Int)) : Except Fault (IdMaps × List LogEntry) :=
  es.foldlM (fun s e => do
    let (ids, out) ← parseAgain cfg s.1 e.1 e.2
    return (ids, s.2 ++ [out])) ({}, [])

def gidOf (e : LogEntry) : Nat := toUInt64 (e.vertexGid.getD 0)

def arriving (parser : IdParser) (pid label : Nat) (gids : List Nat) : List Nat :=
  gids.filter fun gid => parser.getFid gid = pid ∧ parser.getLabelId gid = label

/-- What the members of an entry of an inserted vertex hold by their types. -/
structure Insertion (e : LogEntry × Int) : Prop where
  inserts : e.1.insertsVertex
  label : 0 ≤ e.1.vlabel ∧ e.1.vlabel < maxVlabels
  epoch : Decimal.InRange 32 e.2
  elabel : e.1.elabel < 2 ^ 31

section gids
variable {parser : IdParser} {pid label gid : Nat} {gids more : List Nat}

theorem arriving_append : arriving parser pid label (gids ++ more) =
    arriving parser pid label gids ++ arriving parser pid label more := List.filter_append _ _

theorem arriving_singleton : arriving parser pid label [gid] =
    if parser.getFid gid = pid ∧ parser.getLabelId gid = label then [gid] else [] := by
  unfold arriving
  by_cases hmine : parser.getFid gid = pid ∧ parser.getLabelId gid = label
  · rw [if_pos hmine]
    exact List.filter_cons_of_pos (decide_eq_true hmine)
  · rw [if_neg hmine]
    exact List.filter_cons_of_neg (by simpa using hmine)

def DenseOffsets (parser : IdParser) (gids : List Nat) : Prop :=
  ∀ pid label, (arriving parser pid label gids).map parser.getOffset =
    List.range (arriving parser pid label gids).length

theorem DenseOffsets.concat (h : DenseOffsets parser gids)
    (hgid : parser.getOffset gid =
      (arriving parser (parser.getFid gid) (parser.getLabelId gid) gids).length) :
    DenseOffsets parser (gids ++ [gid]) := by
  intro pid label
  rw [arriving_append, arriving_singleton]
  split
  · rename_i hmine
    rw [← hmine.1, ← hmine.2, List.map_append, List.map_singleton, h, List.length_append,
      List.length_singleton, List.range_succ, hgid]
  · rw [List.append_nil]
    exact h pid label

theorem DenseOffsets.offset {before after : List Nat} (h : DenseOffsets parser (before ++ gid :: after)) :
    parser.getOffset gid = (arriving parser (parser.getFid gid) (parser.getLabelId gid) before).length := by
  have hdense := h (parser.getFid gid) (parser.getLabelId gid)
  have hsplit : before ++ gid :: after = before ++ [gid] ++ after := by simp
  rw [hsplit, arriving_append, arriving_append, arriving_singleton, if_pos ⟨rfl, rfl⟩] at hdense
  generalize arriving parser (parser.getFid gid) (parser.getLabelId gid) before = earlier at hdense ⊢
  have hget : ((earlier ++ [gid] ++ _).map parser.getOffset)[earlier.length]? = (List.range _)[earlier.length]? :=
    congrArg (fun xs : List Nat => xs[earlier.length]?) hdense
  rw [List.getElem?_range (by simp)] at hget
  simpa using hget

theorem DenseOffsets.nodup (h : DenseOffsets parser gids) : gids.Nodup := by
  rw [List.nodup_iff_count_le_one]
  intro gid
  have hdense := h (parser.getFid gid) (parser.getLabelId gid)
  have hnodup : (arriving parser (parser.getFid gid) (parser.getLabelId gid) gids).Nodup := by
    apply List.Nodup.of_map parser.getOffset
    rw [hdense]
    exact List.nodup_range
  have hcount : (arriving parser (parser.getFid gid) (parser.getLabelId gid) gids).count gid = gids.count gid :=
    List.count_filter (by simp)
  rw [← hcount]
  exact List.nodup_iff_count_le_one.mp hnodup gid

end gids

/-! ### The converter -/

section converter
variable {cfg : ParserConfig}

/-- What holds after some entries: the counters of the converter are the lengths. -/
structure GidsCounted (cfg : ParserConfig) (ids : IdMaps) (out : List LogEntry) : Prop where
  counts : ∀ pid label : Nat, ids.vertexNumsPerFragment label pid =
    (arriving (IdParser.init cfg.subgraphNum) pid label (out.map gidOf)).length
  dense : DenseOffsets (IdParser.init cfg.subgraphNum) (out.map gidOf)

/-- Fewer than `2^offset_width` vertices of every label arrive at every partition. -/
def WithinOffsets (cfg : ParserConfig) (out : List LogEntry) : Prop :=
  ∀ pid label, (arriving (IdParser.init cfg.subgraphNum) pid label (out.map gidOf)).length <
    2 ^ (IdParser.init cfg.subgraphNum).offsetWidth

theorem WithinOffsets.of_append {out more : List LogEntry} (h : WithinOffsets cfg (out ++ more)) :
    WithinOffsets cfg out := by
  intro pid label
  have hall := h pid label
  rw [List.map_append, arriving_append, List.length_append] at hall
  omega

theorem numToBitwidth_int {n : Nat} (h : n < 2 ^ 31) : numToBitwidth n ≤ 31 :=
  IdParser.numToBitwidth_le (by decide) (Nat.le_of_lt h)

theorem nextGid_lt (hnum : cfg.subgraphNum < 2 ^ 31) (ids : IdMaps) (vlabel : Int) :
    ∃ gid : Nat, nextGid cfg ids vlabel = gid ∧ gid < 2 ^ 63 := by
  have hwidth := numToBitwidth_int hnum
  exact ⟨_, rfl, IdParser.generateId_lt (by omega)⟩

theorem GidsCounted.next {ids ids' : IdMaps} {out : List LogEntry} {e e' : LogEntry}
    (h : GidsCounted cfg ids out) (hpos : cfg.subgraphNum ≠ 0) (hnum : cfg.subgraphNum < 2 ^ 31)
    (hlabel : 0 ≤ e.vlabel ∧ e.vlabel < maxVlabels) (hgid : e'.vertexGid = some (nextGid cfg ids e.vlabel))
    (hcount : ids'.vertexNumsPerFragment = (ids.countVertex e.vlabel
      (ids.vertexNums e.vlabel % cfg.subgraphNum)).vertexNumsPerFragment)
    (hcap : WithinOffsets cfg (out ++ [e'])) : GidsCounted cfg ids' (out ++ [e']) := by
  have hwidth := numToBitwidth_int hnum
  obtain ⟨label, hlabelEq⟩ := Int.eq_ofNat_of_zero_le hlabel.1
  have hlt : label < maxVlabels := by
    have hbound := hlabel.2
    rw [hlabelEq] at hbound
    exact Int.ofNat_lt.mp hbound
  generalize hfid : ids.vertexNums e.vlabel % cfg.subgraphNum = fid at hcount
  have hfidLt : fid < cfg.subgraphNum := by
    rw [← hfid]
    exact Nat.mod_lt _ (Nat.pos_of_ne_zero hpos)
  have hoffset := hcap.of_append fid label
  rw [← h.counts, IdParser.offsetWidth_eq (by omega)] at hoffset
  have hgidOf : gidOf e' =
      (IdParser.init cfg.subgraphNum).generateId fid label (ids.vertexNumsPerFragment label fid) := by
    unfold gidOf
    rw [hgid]
    show toUInt64 (nextGid cfg ids e.vlabel) = _
    unfold nextGid
    dsimp only
    rw [hfid, hlabelEq, Int.toNat_natCast]
    exact toUInt64_natCast (IdParser.generateId_lt (by omega))
  have hgetFid : (IdParser.init cfg.subgraphNum).getFid (gidOf e') = fid := by
    rw [hgidOf]
    exact IdParser.getFid_generateId (by omega) (IdParser.lt_two_pow_numToBitwidth hfidLt)
  have hgetLabel : (IdParser.init cfg.subgraphNum).getLabelId (gidOf e') = label := by
    rw [hgidOf]
    exact IdParser.getLabelId_generateId (by omega) hlt
  have hgetOffset : (IdParser.init cfg.subgraphNum).getOffset (gidOf e') = ids.vertexNumsPerFragment label fid := by
    rw [hgidOf]
    exact IdParser.getOffset_generateId (by omega) hoffset
  constructor
  · intro pid label'
    rw [List.map_append, List.map_singleton, arriving_append, arriving_singleton, hgetFid, hgetLabel,
      List.length_append, ← h.counts, hcount]
    unfold IdMaps.countVertex
    dsimp only
    rw [hlabelEq]
    by_cases hmine : fid = pid ∧ label = label'
    · obtain ⟨rfl, rfl⟩ := hmine
      have hsmall : ids.vertexNumsPerFragment label fid + 1 < 2 ^ 64 := by
        have hpow : 2 ^ (56 - numToBitwidth cfg.subgraphNum) ≤ 2 ^ 56 :=
          Nat.pow_le_pow_right (by decide) (Nat.sub_le _ _)
        omega
      rw [if_pos ⟨rfl, rfl⟩, if_pos ⟨rfl, rfl⟩, Nat.mod_eq_of_lt hsmall, List.length_singleton]
    · rw [if_neg hmine, if_neg]
      · rfl
      · rintro ⟨hl, hp⟩
        exact hmine ⟨hp.symm, (Int.ofNat_inj.mp hl).symm⟩
  · rw [List.map_append, List.map_singleton]
    apply h.dense.concat
    rw [hgetOffset, hgetFid, hgetLabel, h.counts]

theorem setGid_counts {ids ids' : IdMaps} {oid : String} {isStringOid : Bool} {vlabel gid : Int}
    (h : ids.setGid oid isStringOid vlabel gid = .ok ids') :
    ids'.vertexNumsPerFragment = ids.vertexNumsPerFragment := by
  unfold IdMaps.setGid at h
  cases isStringOid with
  | false =>
    obtain ⟨n, -, h⟩ := bind_eq_ok h
    rw [← Except.ok.inj h]
  | true => rw [← Except.ok.inj h]

theorem resolve_insert {ids ids' : IdMaps} {e out : LogEntry} (he : e.insertsVertex)
    (h : resolve cfg ids e = .ok (ids', out)) : cfg.subgraphNum ≠ 0 ∧
      out = { e with vertexGid := some (nextGid cfg ids e.vlabel) } ∧
      ids'.vertexNumsPerFragment = (ids.countVertex e.vlabel
        (ids.vertexNums e.vlabel % cfg.subgraphNum)).vertexNumsPerFragment := by
  unfold resolve at h
  rw [he.1, he.2] at h
  dsimp only at h
  unfold assignGid at h
  split at h
  · cases h
  · rename_i hpos
    obtain ⟨ids'', hset, h⟩ := bind_eq_ok h
    obtain ⟨hids, hout⟩ := Prod.mk.inj (Except.ok.inj h)
    rw [← hids, ← hout]
    exact ⟨hpos, rfl, setGid_counts hset⟩

structure EntriesInv (cfg : ParserConfig) (s : IdMaps × List LogEntry) : Prop where
  counted : WithinOffsets cfg s.2 → GidsCounted cfg s.1 s.2
  printable : ∀ e ∈ s.2, Printable e ∧ e.insertsVertex

theorem EntriesInv.next {s : IdMaps × List LogEntry} {e : LogEntry × Int} {ids : IdMaps} {out : LogEntry}
    (h : EntriesInv cfg s) (hnum : cfg.subgraphNum < 2 ^ 31) (he : Insertion e)
    (hparse : parseAgain cfg s.1 e.1 e.2 = .ok (ids, out)) : EntriesInv cfg (ids, s.2 ++ [out]) := by
  obtain ⟨hpos, hout, hcount⟩ := resolve_insert (e := { e.1 with epoch := e.2 }) he.inserts hparse
  obtain ⟨gid, hgid, hlt⟩ := nextGid_lt hnum s.1 e.1.vlabel
  constructor
  · intro hcap
    exact (h.counted hcap.of_append).next hpos hnum he.label (by rw [hout]) hcount hcap
  · intro e' he'
    rcases List.mem_append.mp he' with hold | hnew
    · exact h.printable e' hold
    · rw [List.mem_singleton.mp hnew, hout]
      refine ⟨⟨Or.inl he.inserts.2, he.epoch, he.elabel, fun _ => ⟨gid, congrArg some hgid, hlt⟩, ?_⟩, he.inserts⟩
      intro hedge
      have hvertex : e.1.entityType = .edge := hedge
      rw [he.inserts.1] at hvertex
      cases hvertex

theorem numberEntries_inv {es : List (LogEntry × Int)} {ids : IdMaps} {out : List LogEntry}
    (hnum : cfg.subgraphNum < 2 ^ 31) (hes : ∀ e ∈ es, Insertion e)
    (h : numberEntries cfg es = .ok (ids, out)) : EntriesInv cfg (ids, out) := by
  unfold numberEntries at h
  have hrun := @foldlM_invariant _ _ _ (fun s e => do
      let (ids, out) ← parseAgain cfg s.1 e.1 e.2
      return (ids, s.2 ++ [out])) (fun _ s => EntriesInv cfg s) (fun _ : Fault => True) [] es ({}, []) ?_ ?_
  · exact hrun.of_ok h
  · exact ⟨fun _ => ⟨fun _ _ => rfl, fun _ _ => rfl⟩, fun e he => by cases he⟩
  · intro before e after s hsplit hs
    have he : e ∈ es := by
      rw [List.nil_append] at hsplit
      rw [← hsplit]
      exact List.mem_append_right _ List.mem_cons_self
    cases hparse : parseAgain cfg s.1 e.1 e.2 with
    | error f => trivial
    | ok r => exact hs.next hnum (hes e he) hparse

end converter

/-! ### The stores -/

section stores
variable {s s' : GraphStore} {p p' : PropertyColPaged} {buf buf' : RegionBuffer} {gids : List Nat}

theorem putFamily_header {b : RowBuild} {off ver family : Nat} {q q' : PropertyColPaged × RegionBuffer}
    (h : PropertyColPaged.putFamily b off ver family q = .ok q') : q'.1.header = q.1.header := by
  unfold PropertyColPaged.putFamily at h
  split at h
  · cases h
  · obtain ⟨chain, -, h⟩ := bind_eq_ok h
    rw [← Except.ok.inj h]

theorem insert_header {layout : VertexLayout} {dtypes : List PropertyDataType} {off ver : Nat}
    {vList : List Bytes} (h : p.insert buf layout dtypes off ver vList = .ok (p', buf')) :
    p'.header = p.header := by
  unfold PropertyColPaged.insert at h
  split at h
  · cases h
  · obtain ⟨b, -, h⟩ := bind_eq_ok h
    have hrun := @foldlM_invariant _ _ _ (fun s family => PropertyColPaged.putFamily b off ver family s)
      (fun _ s => s.1.header = p.header) (fun _ : StoreFault => True) [] (List.range p.cols.length) (p, buf) rfl ?_
    · exact hrun.of_ok h
    · intro before family after q _ hq
      cases hput : PropertyColPaged.putFamily b off ver family q with
      | error e => trivial
      | ok q' => exact (putFamily_header hput).trans hq

/-- Both counters of every label count the vertices that have arrived. -/
structure StoreCounts (parser : IdParser) (pid : Nat) (s : GraphStore) (gids : List Nat) : Prop where
  idParser : s.idParser = parser
  localPid : s.localPid = pid
  counts : ∀ label l, s.labels[label]? = some l →
    l.graph.vertexId = (arriving parser pid label gids).length ∧
      l.property.header = (arriving parser pid label gids).length

theorem storeCounts_create (c : StoreConfig) (sb : SchemaBuild) :
    StoreCounts (IdParser.init c.totalPartitions) c.localPid (GraphStore.create c sb) [] := by
  refine ⟨rfl, rfl, fun label l hl => ?_⟩
  unfold GraphStore.create at hl
  dsimp only at hl
  rw [List.getElem?_map] at hl
  obtain ⟨layout, -, hl⟩ := Option.map_eq_some_iff.mp hl
  rw [← hl]
  exact ⟨rfl, rfl⟩

theorem StoreCounts.insert {parser : IdParser} {pid epoch gid : Nat} {recycle : Bool} {externalId : Bytes}
    {vprop : List Bytes} (h : StoreCounts parser pid s gids)
    (hinsert : s.insertInnerVertex recycle epoch gid externalId vprop = .ok s') :
    StoreCounts parser pid s' (gids ++ [gid]) := by
  obtain ⟨l, l', hone, hcases⟩ := insertInnerVertex_cases hinsert
  rw [h.idParser, h.localPid] at hcases
  rw [h.idParser] at hone
  refine ⟨hone.same.idParser.trans h.idParser, hone.same.localPid.trans h.localPid, fun label k hk => ?_⟩
  rw [hone.after] at hk
  rw [arriving_append, arriving_singleton, List.length_append]
  have hold := h.counts (parser.getLabelId gid) l hone.before
  split at hk
  · rename_i hlabel
    rw [← Option.some.inj hk, hlabel]
    rcases hcases with ⟨hfid, ⟨map, rfl⟩, -⟩ | ⟨hfid, hl'⟩
    · rw [if_neg fun hmine => hfid hmine.1]
      exact hold
    · rw [if_pos ⟨hfid, rfl⟩, hl'.graph, Seggraph.newVertex_vertexId,
          (Seggraph.createGraphWriter_sameGraph _ _ _).vertexId]
      obtain ⟨externalId, stored, args, -, -, hproperty⟩ := hl'.property
      rw [insert_header hproperty]
      exact ⟨congrArg (· + 1) hold.1, congrArg (· + 1) hold.2⟩
  · rename_i hlabel
    rw [if_neg fun hmine => hlabel hmine.2.symm]
    exact h.counts label k hk

theorem applyInsert_eq {recycle : Bool} {unset offset : Int} {e : LogEntry} (he : Printable e)
    (hinsert : e.insertsVertex) (h : s.applyInsert (recycle, e.toText unset offset) = .ok s') :
    ∃ epoch externalId vprop, s.insertInnerVertex recycle epoch (gidOf e) externalId vprop = .ok s' := by
  have hread : readLog (e.toText unset offset) = .ok (recordWith e (splitAll (freeTexts e))) := readLog_eq he
  unfold recordWith at hread
  rw [hinsert.1, hinsert.2] at hread
  unfold GraphStore.applyInsert at h
  dsimp only at h
  rw [hread] at h
  exact ⟨_, _, _, h⟩

/-- The line of an entry; a store draws for its own writer. -/
def PrintedAs (e : LogEntry) (line : Bool × String) : Prop :=
  ∃ unset offset, line.2 = e.toText unset offset

theorem StoreCounts.run {parser : IdParser} {pid : Nat} {entries : List LogEntry} {lines : List (Bool × String)}
    (hprinted : List.Forall₂ PrintedAs entries lines) (hentries : ∀ e ∈ entries, Printable e ∧ e.insertsVertex)
    (h : StoreCounts parser pid s gids) (hrun : lines.foldlM GraphStore.applyInsert s = .ok s') :
    StoreCounts parser pid s' (gids ++ entries.map gidOf) := by
  induction hprinted generalizing s gids with
  | nil =>
    rw [← Except.ok.inj hrun, List.map_nil, List.append_nil]
    exact h
  | @cons e line entries lines hline _ ih =>
    obtain ⟨unset, offset, hline⟩ := hline
    obtain ⟨recycle, text⟩ := line
    rw [List.foldlM_cons] at hrun
    obtain ⟨s'', happly, hrun⟩ := bind_eq_ok hrun
    obtain ⟨he, hinsert⟩ := hentries e List.mem_cons_self
    dsimp only at hline
    rw [hline] at happly
    obtain ⟨epoch, externalId, vprop, happly⟩ := applyInsert_eq he hinsert happly
    have hrest := ih (fun e' he' => hentries e' (List.mem_cons_of_mem _ he')) (h.insert happly) hrun
    rw [List.append_assoc] at hrest
    exact hrest

end stores

/-- The offsets of the gids of a label that arrive at a partition are 0, 1, 2 and so on, no two vertices have
the same gid, and both counters of a store hand out the offset of the gid. -/
theorem gids_dense {cfg : ParserConfig} {es : List (LogEntry × Int)} {ids : IdMaps} {out : List LogEntry}
    (hnum : cfg.subgraphNum < 2 ^ 31) (hes : ∀ e ∈ es, Insertion e)
    (hrun : numberEntries cfg es = .ok (ids, out)) (hcap : WithinOffsets cfg out) :
    DenseOffsets (IdParser.init cfg.subgraphNum) (out.map gidOf) ∧ (out.map gidOf).Nodup ∧
      ∀ (c : StoreConfig) (sb : SchemaBuild) (before : List LogEntry) (e : LogEntry) (after : List LogEntry)
        (lines : List (Bool × String)) (s : GraphStore) (l : LabelStore) (recycle : Bool) (epoch : Nat),
        c.totalPartitions = cfg.subgraphNum → out = before ++ e :: after → List.Forall₂ PrintedAs before lines →
        lines.foldlM GraphStore.applyInsert (GraphStore.create c sb) = .ok s →
        (IdParser.init cfg.subgraphNum).getFid (gidOf e) = c.localPid →
        s.labels[(IdParser.init cfg.subgraphNum).getLabelId (gidOf e)]? = some l →
        (l.graph.createGraphWriter recycle epoch).vertexId = (IdParser.init cfg.subgraphNum).getOffset (gidOf e) ∧
          l.property.getNewOffset.1 = (IdParser.init cfg.subgraphNum).getOffset (gidOf e) := by
  have hinv := numberEntries_inv hnum hes hrun
  have hdense := (hinv.counted hcap).dense
  refine ⟨hdense, hdense.nodup, ?_⟩
  intro c sb before e after lines s l recycle epoch hparts hout hprinted hlines hfid hl
  have hcreate := storeCounts_create c sb
  rw [hparts] at hcreate
  have hcounts :=
    hcreate.run hprinted (fun e' he' => hinv.printable e' (by rw [hout]; exact List.mem_append_left _ he'))
    hlines
  obtain ⟨hgraph, hproperty⟩ := hcounts.counts _ l hl
  dsimp only at hdense
  rw [hout, List.map_append, List.map_cons] at hdense
  have hoffset := hdense.offset
  rw [hfid] at hoffset
  rw [List.nil_append] at hgraph hproperty
  rw [(Seggraph.createGraphWriter_sameGraph l.graph recycle epoch).vertexId, hoffset]
  exact ⟨hgraph, hproperty⟩

def threeVertices : List (LogEntry × Int) :=
  ["a", "b", "c"].map fun oid => ({ opType := .insert, vlabel := 0, externalId := oid, isStringOid := true }, 1)

def threeEntries : List LogEntry :=
  [("a", 0), ("b", 1), ("c", 2)].map fun e =>
    { opType := .insert, vlabel := 0, externalId := e.1, isStringOid := true, epoch := 1, vertexGid := some e.2 }

def twoPartitions : ParserConfig :=
  { build := .debezium, mapping := { vertexTypes := [], edgeTypes := [], known := by simp }, subgraphNum := 2 }

def smallStore : StoreConfig :=
  { totalPartitions := 2
    localPid := 0
    label := fun _ => { vertexCapacity := 4, blockSize := 2 ^ 20, ovVertexCapacity := 4, ovBlockSize := 2 ^ 20
                        externalIdIsString := true, blankTable := fun _ => 0 }
    edgeIsUndirected := []
    strings := { capacity := 100, content := fun _ => 0, capacity_le := hundred_le }
    regions := { capacity := 100, blank := fun _ => 0 }
    globalVertexMap := false
    assignOther := fun _ m _ _ => m }

/-- The third vertex is the second that arrives at the first partition. -/
theorem gids_dense_threeVertices : ∃ ids, numberEntries twoPartitions threeVertices = .ok (ids, threeEntries) ∧
    (threeEntries.map gidOf).Nodup ∧ ∃ s l,
      ((threeEntries.take 2).map fun e => (true, e.toText 0 7)).foldlM GraphStore.applyInsert
        (GraphStore.create smallStore { layouts := [{}] }) = .ok s ∧ s.labels[0]? = some l ∧
      (l.graph.createGraphWriter true 1).vertexId = 1 ∧ l.property.getNewOffset.1 = 1 := by
  have hentries : (numberEntries twoPartitions threeVertices).map Prod.snd = .ok threeEntries := by decide +kernel
  cases hrun : numberEntries twoPartitions threeVertices with
  | error f =>
    rw [hrun] at hentries
    cases hentries
  | ok r =>
    obtain ⟨ids, out⟩ := r
    rw [hrun] at hentries
    have hout : out = threeEntries := Except.ok.inj hentries
    rw [hout] at hrun
    have hlabels : ((((threeEntries.take 2).map fun e => (true, e.toText 0 7)).foldlM GraphStore.applyInsert
        (GraphStore.create smallStore { layouts := [{}] })).toOption.map fun s => s.labels.length) = some 1 := by
      decide +kernel
    obtain ⟨-, hnodup, hstores⟩ := @gids_dense twoPartitions threeVertices ids threeEntries (by decide)
      (fun e he => by
        simp only [threeVertices, List.map_cons, List.map_nil, List.mem_cons, List.not_mem_nil, or_false] at he
        rcases he with rfl | rfl | rfl <;> exact ⟨⟨rfl, rfl⟩, by decide, by decide, by decide⟩) hrun
      (fun pid label => Nat.lt_of_le_of_lt (List.length_filter_le _ _) (by decide +kernel))
    cases hlines : ((threeEntries.take 2).map fun e => (true, e.toText 0 7)).foldlM GraphStore.applyInsert
        (GraphStore.create smallStore { layouts := [{}] }) with
    | error f =>
      rw [hlines] at hlabels
      cases hlabels
    | ok s =>
      rw [hlines] at hlabels
      have hlength : s.labels.length = 1 := Option.some.inj hlabels
      have hl : s.labels[0]? = some s.labels[0] := List.getElem?_eq_getElem (by omega)
      have hprinted : List.Forall₂ PrintedAs (threeEntries.take 2)
          ((threeEntries.take 2).map fun e => (true, e.toText 0 7)) :=
        List.forall₂_map_right_iff.mpr (List.forall₂_same.mpr fun e _ => ⟨0, 7, rfl⟩)
      exact ⟨ids, by
        rw [hout], hnodup, s, s.labels[0], rfl, hl, hstores smallStore { layouts := [{}] } (threeEntries.take 2)
        _ [] _ s _ true 1 rfl rfl hprinted hlines (by decide +kernel) hl⟩

end Gart.Store
