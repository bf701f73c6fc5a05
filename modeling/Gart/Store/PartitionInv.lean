import Gart.Store.StoreSteps

/-!
# What a partition keeps

Without deletions every label of a store is described by the number of its inner vertices,
the gids of its outer vertices in the order in which they are met, and the logs of its two
segment graphs. `StoreInv` ties the store to these.
-/

namespace Gart.Store
open Gart.ByteMemory Gart.Outcome Gart.Fragment Gart.Seggraph

structure LabelView where
  inner : Nat
  outer : List Nat
  log : Log
  ovLog : Log

def outerLidOf (parser : IdParser) (vlabel ov : Nat) : Nat :=
  parser.generateId 0 vlabel (2 ^ parser.offsetWidth - 1 - ov)

/-! ### Graphs -/

/-- A graph of a label with directed edges, and lists with epochs up to `w`. -/
structure GraphOk (stride : Nat → Nat) (g : SegGraph) (log : Log) (w : Nat) : Prop where
  graph : ∃ own, GraphInv (fun _ => True) stride g own log NoHole
  directed : ∀ l, g.isEdgeUndirected l = false
  epochs : ∀ v l d, ∀ entry ∈ log v l d, entry.epoch ≤ w

section graphs
variable {stride : Nat → Nat} {g g' : SegGraph} {log : Log} {w : Nat}

theorem graphOk_create {capacity : Nat} {undirected : List Bool} (hcap : capacity ≤ 2 ^ 64)
    (hdirected : ∀ l, undirected.getD l false = false) :
    GraphOk stride (SegGraph.create capacity undirected) emptyLog w :=
  ⟨⟨_, create_inv capacity undirected hcap⟩, hdirected, fun v l d entry hentry => (by cases hentry)⟩

theorem GraphOk.writer (h : GraphOk stride g log w) (recycle : Bool) (epoch : Nat) :
    GraphOk stride (g.createGraphWriter recycle epoch) log w := by
  obtain ⟨own, hgraph⟩ := h.graph
  refine ⟨createGraphWriter_inv hgraph recycle epoch, fun l => ?_, h.epochs⟩
  rw [(createGraphWriter_sameGraph g recycle epoch).isEdgeUndirected]
  exact h.directed l

theorem GraphOk.newVertex (h : GraphOk stride g log w) : GraphOk stride g.newVertex log w := by
  obtain ⟨own, hgraph⟩ := h.graph
  refine ⟨⟨own, newVertex_inv hgraph⟩, fun l => ?_, h.epochs⟩
  rw [newVertex_isEdgeUndirected]
  exact h.directed l

theorem newVertex_capacity (g : SegGraph) : g.newVertex.blockManager.capacity = g.blockManager.capacity := by
  unfold SegGraph.newVertex
  dsimp only
  split <;> rfl

def addEntry (log : Log) (v l : Nat) (d : Dir) (entry : LogEntry) : Log := appendLog false log v l d entry

theorem addEntry_eq (log : Log) (v l : Nat) (d : Dir) (entry : LogEntry) (v' l' : Nat) (d' : Dir) :
    addEntry log v l d entry v' l' d' =
      if v' = v ∧ l' = l ∧ d' = d then log v' l' d' ++ [entry] else log v' l' d' := by
  unfold addEntry appendLog SegGraph.SameList
  refine if_congr ?_ rfl rfl
  constructor
  · rintro ⟨hv, hl, hd | hd⟩
    · exact ⟨hv, hl, hd⟩
    · cases hd
  · rintro ⟨hv, hl, hd⟩
    exact ⟨hv, hl, Or.inl hd⟩

theorem GraphOk.putEdge {epoch src label dst : Nat} {dir : Dir} {data : Bytes} (h : GraphOk stride g log w)
    (hdata : data.length = stride label) (hdst : dst < 2 ^ 64) (hle : epoch ≤ w)
    (hroom : g.blockManager.capacity ≤ 2 ^ 35 ∨ (log src label dir).length + 1 < 2 ^ 32)
    (hput : g.putEdge epoch src label dir dst data = .ok g') :
    src < g.vertexId ∧ SameGraph g g' ∧
      ∃ seen, GraphOk stride g' (addEntry log src label dir ⟨seen, ⟨dst, data⟩⟩) w := by
  obtain ⟨own, hgraph⟩ := h.graph
  have hsrc : src < g.vertexId := by
    by_contra hnot
    rw [putEdge_invalid (Nat.not_lt.mp hnot)] at hput
    cases hput
  have hshort : (log src label dir).length + 1 < 2 ^ 32 := by
    rcases hroom with hcap | hcount
    · exact hgraph.length_of_capacity hcap src label dir
    · exact hcount
  obtain ⟨seen, hseen⟩ := exists_seenFrom epoch (log src label dir)
  have hseenLe : seen ≤ w := by
    rcases hseen.attained with hepoch | ⟨last, hlast, hepoch⟩
    · rw [hepoch]
      exact hle
    · rw [← hepoch]
      exact h.epochs src label dir last hlast
  have hspec := putEdge_seen hgraph hsrc hdst (Or.inr hdata) (Nat.le_of_eq hdata) (fun _ => hdata)
    (fun _ => by rw [hdata]; exact fun hfits => hfits) hseen hshort
  obtain ⟨⟨own', hgraph'⟩, hsame⟩ := hspec.of_ok hput
  rw [h.directed] at hgraph'
  refine ⟨hsrc, hsame, seen, ⟨own', hgraph'⟩, fun l => ?_, fun v l d entry hentry => ?_⟩
  · rw [hsame.isEdgeUndirected]
    exact h.directed l
  · rw [addEntry_eq] at hentry
    split at hentry
    · rcases List.mem_append.mp hentry with hold | hnew
      · exact h.epochs v l d entry hold
      · rw [List.mem_singleton.mp hnew]
        exact hseenLe
    · exact h.epochs v l d entry hentry

end graphs

/-! ### Outer vertices -/

/-- The maps between the gids and the local ids of the outer vertices. -/
structure OuterMaps (parser : IdParser) (pid vlabel : Nat) (l : LabelStore) (outer : List Nat) : Prop where
  nodup : outer.Nodup
  keyLid : ∀ gid ov, l.keyLid gid = some ov ↔ outer[ov]? = some gid
  ovl2g : ∀ ov gid, outer[ov]? = some gid → l.ovl2g ov = gid
  ovg2l : ∀ gid lid, l.ovg2l gid = some lid ↔ ∃ ov, outer[ov]? = some gid ∧ lid = outerLidOf parser vlabel ov
  foreign : ∀ gid ∈ outer, parser.getFid gid ≠ pid ∧ parser.getLabelId gid = vlabel

/-- The vertex table of a label without deletions. -/
structure TableOk (parser : IdParser) (vlabel size : Nat) (t : VTable) (inner outer : Nat) : Prop where
  sameSize : t.size = size
  maxInner : t.maxInner = inner
  maxInnerLocation : t.maxInnerLocation = inner
  minOuter : t.minOuter + outer = size
  minOuterLocation : t.minOuterLocation + outer = size
  room : inner + outer ≤ size
  entry : ∀ ov < outer, t.table (size - 1 - ov) = outerLidOf parser vlabel ov

section outer
variable {parser : IdParser} {pid vlabel size gid : Nat} {l : LabelStore} {outer : List Nat} {t t' : VTable}
  {inner n : Nat}

theorem outerMaps_nil (h : l.keyLid = fun _ => none) (h' : l.ovg2l = fun _ => none) :
    OuterMaps parser pid vlabel l [] where
  nodup := List.nodup_nil
  keyLid gid ov := by
    rw [h]
    simp
  ovl2g ov gid hgid := by cases hgid
  ovg2l gid lid := by
    rw [h']
    simp
  foreign gid hgid := by cases hgid

theorem OuterMaps.congr {l' : LabelStore} (h : OuterMaps parser pid vlabel l outer) (hkey : l'.keyLid = l.keyLid)
    (hovl2g : l'.ovl2g = l.ovl2g) (hovg2l : l'.ovg2l = l.ovg2l) : OuterMaps parser pid vlabel l' outer :=
  ⟨h.nodup, by rw [hkey]; exact h.keyLid, by rw [hovl2g]; exact h.ovl2g, by rw [hovg2l]; exact h.ovg2l, h.foreign⟩

theorem getElem?_concat_iff {α : Type} {xs : List α} {x y : α} {i : Nat} :
    (xs ++ [x])[i]? = some y ↔ xs[i]? = some y ∨ i = xs.length ∧ y = x := by
  constructor
  · intro h
    rcases getElem?_concat_cases h with hold | ⟨hi, hy⟩
    · exact Or.inl hold
    · exact Or.inr ⟨hi, hy⟩
  · rintro (hold | ⟨rfl, rfl⟩)
    · rw [List.getElem?_append_left (List.getElem?_eq_some_iff.mp hold).1]
      exact hold
    · exact List.getElem?_concat_length

theorem OuterMaps.add {l' : LabelStore} (h : OuterMaps parser pid vlabel l outer) (hnew : l.keyLid gid = none)
    (hforeign : parser.getFid gid ≠ pid ∧ parser.getLabelId gid = vlabel)
    (hkey : l'.keyLid = Function.update l.keyLid gid (some outer.length))
    (hovl2g : l'.ovl2g = Function.update l.ovl2g outer.length gid)
    (hovg2l : l'.ovg2l = emplace l.ovg2l gid (outerLidOf parser vlabel outer.length)) :
    OuterMaps parser pid vlabel l' (outer ++ [gid]) := by
  have hnot : gid ∉ outer := by
    intro hmem
    obtain ⟨ov, hov⟩ := List.mem_iff_getElem?.mp hmem
    rw [(h.keyLid gid ov).mpr hov] at hnew
    cases hnew
  have hnotAt : ∀ ov, outer[ov]? ≠ some gid := fun ov hov => hnot (List.mem_of_getElem? hov)
  have hnone : l.ovg2l gid = none := by
    cases hlid : l.ovg2l gid with
    | none => rfl
    | some lid =>
      obtain ⟨ov, hov, -⟩ := (h.ovg2l gid lid).mp hlid
      exact absurd hov (hnotAt ov)
  constructor
  · rw [List.nodup_append]
    refine ⟨h.nodup, List.nodup_singleton gid, fun a ha b hb => ?_⟩
    rw [List.mem_singleton.mp hb]
    rintro rfl
    exact hnot ha
  · intro gid' ov
    rw [hkey, getElem?_concat_iff]
    by_cases hgid : gid' = gid
    · rw [hgid, Function.update_self]
      constructor
      · intro hov
        exact Or.inr ⟨(Option.some.inj hov).symm, rfl⟩
      · rintro (hov | ⟨rfl, -⟩)
        · exact absurd hov (hnotAt ov)
        · rfl
    · rw [Function.update_of_ne hgid, h.keyLid]
      constructor
      · exact Or.inl
      · rintro (hov | ⟨-, hsame⟩)
        · exact hov
        · exact absurd hsame hgid
  · intro ov gid' hov
    rw [hovl2g]
    rcases getElem?_concat_iff.mp hov with hold | ⟨rfl, rfl⟩
    · have hlt := (List.getElem?_eq_some_iff.mp hold).1
      rw [Function.update_of_ne (by omega)]
      exact h.ovl2g ov gid' hold
    · exact Function.update_self _ _ _
  · intro gid' lid
    rw [hovg2l]
    unfold emplace
    rw [if_pos hnone]
    by_cases hgid : gid' = gid
    · rw [hgid, Function.update_self]
      constructor
      · intro hlid
        exact ⟨outer.length, List.getElem?_concat_length, (Option.some.inj hlid).symm⟩
      · rintro ⟨ov, hov, rfl⟩
        rcases getElem?_concat_iff.mp hov with hold | ⟨rfl, -⟩
        · exact absurd hold (hnotAt ov)
        · rfl
    · rw [Function.update_of_ne hgid, h.ovg2l]
      constructor
      · rintro ⟨ov, hov, hlid⟩
        exact ⟨ov, getElem?_concat_iff.mpr (Or.inl hov), hlid⟩
      · rintro ⟨ov, hov, hlid⟩
        rcases getElem?_concat_iff.mp hov with hold | ⟨-, hsame⟩
        · exact ⟨ov, hold, hlid⟩
        · exact absurd hsame hgid
  · intro gid' hmem
    rcases List.mem_append.mp hmem with hold | hnew
    · exact h.foreign gid' hold
    · rw [List.mem_singleton.mp hnew]
      exact hforeign

theorem tableOk_create (blank : Nat → Nat) : TableOk parser vlabel size (VTable.create blank size) 0 0 :=
  ⟨rfl, rfl, rfl, rfl, rfl, Nat.zero_le _, fun ov hov => absurd hov (Nat.not_lt_zero ov)⟩

theorem TableOk.addInner {lid : Nat} (h : TableOk parser vlabel size t inner n) (hadd : t.addInner lid = .ok t') :
    TableOk parser vlabel size t' (inner + 1) n := by
  have hin := h.maxInnerLocation
  have hout := h.minOuterLocation
  have hroom := h.room
  unfold VTable.addInner at hadd
  split at hadd
  · cases hadd
  · rename_i hfull
    rw [← Except.ok.inj hadd]
    refine ⟨h.sameSize, congrArg (· + 1) h.maxInner, congrArg (· + 1) hin, h.minOuter, hout, by omega, fun ov hov => ?_⟩
    dsimp only
    rw [Function.update_of_ne (by omega)]
    exact h.entry ov hov

theorem TableOk.addOuter (h : TableOk parser vlabel size t inner n)
    (hadd : t.addOuter (outerLidOf parser vlabel n) = .ok t') : TableOk parser vlabel size t' inner (n + 1) := by
  have hin := h.maxInnerLocation
  have hout := h.minOuterLocation
  have hmin := h.minOuter
  have hroom := h.room
  unfold VTable.addOuter at hadd
  split at hadd
  · cases hadd
  · rename_i hfull
    rw [← Except.ok.inj hadd]
    refine ⟨h.sameSize, h.maxInner, hin, ?_, ?_, by omega, fun ov hov => ?_⟩
    · dsimp only
      omega
    · dsimp only
      omega
    · dsimp only
      rcases Nat.lt_succ_iff_lt_or_eq.mp hov with hlt | rfl
      · rw [Function.update_of_ne (by omega)]
        exact h.entry ov hlt
      · have hat : size - 1 - ov = t.minOuterLocation - 1 := by omega
        rw [hat, Function.update_self]

end outer

/-! ### The store -/

/-- What is the same for all labels and all records of a partition. -/
structure Partition where
  parser : IdParser
  pid : Nat
  labels : Nat
  edgeLabels : Nat
  stride : Nat → Nat
  tableSize : Nat → Nat
  /-- the buffers of the inner vertices are at most 32 GiB -/
  small : Prop

/-- A label of the partition; the buffers of outer vertices are always small. -/
structure LabelInv (k : Partition) (vlabel : Nat) (l : LabelStore) (view : LabelView) (w : Nat) : Prop where
  graph : GraphOk k.stride l.graph view.log w
  ovGraph : GraphOk k.stride l.ovGraph view.ovLog w
  inner : l.graph.vertexId = view.inner
  outer : l.ovGraph.vertexId = view.outer.length
  maps : OuterMaps k.parser k.pid vlabel l view.outer
  table : TableOk k.parser vlabel (k.tableSize vlabel) l.vtable view.inner view.outer.length
  small : k.small → l.graph.blockManager.capacity ≤ 2 ^ 35
  ovSmall : l.ovGraph.blockManager.capacity ≤ 2 ^ 35

structure StoreInv (k : Partition) (s : GraphStore) (view : Nat → LabelView) (w : Nat) : Prop where
  idParser : s.idParser = k.parser
  localPid : s.localPid = k.pid
  labels : s.labels.length = k.labels
  edgeLabels : s.edgeDtypes.length = k.edgeLabels
  stride : ∀ l, k.stride l = GraphStore.edgeDataSize (s.edgeDtypes.getD l [])
  label : ∀ i l, s.labels[i]? = some l → LabelInv k i l (view i) w

section steps
variable {k : Partition} {s s' : GraphStore} {view : Nat → LabelView} {w vlabel : Nat} {l l' : LabelStore}
  {v : LabelView}

theorem StoreInv.one (h : StoreInv k s view w) (hone : OneLabel vlabel l l' s s')
    (hlabel : LabelInv k vlabel l (view vlabel) w → LabelInv k vlabel l' v w) :
    StoreInv k s' (Function.update view vlabel v) w := by
  refine ⟨hone.same.idParser.trans h.idParser, hone.same.localPid.trans h.localPid, hone.length.trans h.labels,
    ?_, fun e => ?_, fun i m hm => ?_⟩
  · rw [hone.same.edgeDtypes]
    exact h.edgeLabels
  · rw [hone.same.edgeDtypes]
    exact h.stride e
  · rw [hone.after] at hm
    split at hm
    · rename_i hi
      rw [hi, Function.update_self, ← Option.some.inj hm]
      exact hlabel (h.label vlabel l hone.before)
    · rename_i hi
      rw [Function.update_of_ne hi]
      exact h.label i m hm

theorem onGraph_cases {f : SegGraph → Except Stop SegGraph} (h : s.onGraph vlabel f = .ok s') :
    ∃ l g, OneLabel vlabel l { l with graph := g } s s' ∧ f l.graph = .ok g := by
  unfold GraphStore.onGraph at h
  obtain ⟨l, hl, h⟩ := bind_eq_ok h
  obtain ⟨g, hg, h⟩ := bind_eq_ok h
  rw [← Except.ok.inj h]
  refine ⟨l, g, oneLabel_setLabel (getLabel_eq hl) _ _, ?_⟩
  cases hf : f l.graph with
  | error stop =>
    rw [hf] at hg
    cases hg
  | ok g' =>
    rw [hf] at hg
    rw [Except.ok.inj hg]

theorem onOvGraph_cases {f : SegGraph → Except Stop SegGraph} (h : s.onOvGraph vlabel f = .ok s') :
    ∃ l g, OneLabel vlabel l { l with ovGraph := g } s s' ∧ f l.ovGraph = .ok g := by
  unfold GraphStore.onOvGraph at h
  obtain ⟨l, hl, h⟩ := bind_eq_ok h
  obtain ⟨g, hg, h⟩ := bind_eq_ok h
  rw [← Except.ok.inj h]
  refine ⟨l, g, oneLabel_setLabel (getLabel_eq hl) _ _, ?_⟩
  cases hf : f l.ovGraph with
  | error stop =>
    rw [hf] at hg
    cases hg
  | ok g' =>
    rw [hf] at hg
    rw [Except.ok.inj hg]

theorem LabelInv.writer (h : LabelInv k vlabel l v w) (recycle : Bool) (epoch : Nat) :
    LabelInv k vlabel { l with graph := l.graph.createGraphWriter recycle epoch } v w := by
  have hsame := createGraphWriter_sameGraph l.graph recycle epoch
  exact { h with
    graph := h.graph.writer recycle epoch
    inner := hsame.vertexId.trans h.inner
    maps := h.maps.congr rfl rfl rfl
    small := fun hsmall => Nat.le_trans (Nat.le_of_eq hsame.capacity) (h.small hsmall) }

theorem LabelInv.ovWriter (h : LabelInv k vlabel l v w) (recycle : Bool) (epoch : Nat) :
    LabelInv k vlabel { l with ovGraph := l.ovGraph.createGraphWriter recycle epoch } v w := by
  have hsame := createGraphWriter_sameGraph l.ovGraph recycle epoch
  exact { h with
    ovGraph := h.ovGraph.writer recycle epoch
    outer := hsame.vertexId.trans h.outer
    maps := h.maps.congr rfl rfl rfl
    ovSmall := Nat.le_trans (Nat.le_of_eq hsame.capacity) h.ovSmall }

theorem StoreInv.writer {recycle : Bool} {epoch : Nat} (h : StoreInv k s view w)
    (hstep : s.onGraph vlabel (fun g => .ok (g.createGraphWriter recycle epoch)) = .ok s') :
    StoreInv k s' view w ∧ vlabel < k.labels := by
  obtain ⟨l, g, hone, hg⟩ := onGraph_cases hstep
  rw [← Except.ok.inj hg] at hone
  have hnew := h.one hone fun hl => hl.writer recycle epoch
  rw [Function.update_eq_self] at hnew
  rw [← h.labels]
  exact ⟨hnew, (List.getElem?_eq_some_iff.mp hone.before).1⟩

def addInnerEntry (view : Nat → LabelView) (vlabel v e : Nat) (d : Dir) (entry : LogEntry) : Nat → LabelView :=
  Function.update view vlabel { view vlabel with log := addEntry (view vlabel).log v e d entry }

def addOuterEntry (view : Nat → LabelView) (vlabel v e : Nat) (d : Dir) (entry : LogEntry) : Nat → LabelView :=
  Function.update view vlabel { view vlabel with ovLog := addEntry (view vlabel).ovLog v e d entry }

theorem StoreInv.putEdge {epoch src elabel dst : Nat} {dir : Dir} {data : Bytes} (h : StoreInv k s view w)
    (hdata : data.length = k.stride elabel) (hdst : dst < 2 ^ 64) (hle : epoch ≤ w)
    (hroom : k.small ∨ ((view vlabel).log src elabel dir).length + 1 < 2 ^ 32)
    (hstep : s.onGraph vlabel (fun g => g.putEdge epoch src elabel dir dst data) = .ok s') :
    src < (view vlabel).inner ∧
      ∃ seen, StoreInv k s' (addInnerEntry view vlabel src elabel dir ⟨seen, ⟨dst, data⟩⟩) w := by
  obtain ⟨l, g, hone, hg⟩ := onGraph_cases hstep
  have hl := h.label vlabel l hone.before
  obtain ⟨hsrc, hsame, seen, hgraph⟩ := hl.graph.putEdge hdata hdst hle (hroom.imp_left hl.small) hg
  refine ⟨?_, seen, h.one hone fun hl => ?_⟩
  · rw [← hl.inner]
    exact hsrc
  · exact { hl with
      graph := hgraph
      inner := hsame.vertexId.trans hl.inner
      maps := hl.maps.congr rfl rfl rfl
      small := fun hsmall => Nat.le_trans (Nat.le_of_eq hsame.capacity) (hl.small hsmall) }

theorem StoreInv.putOvEdge {epoch src elabel dst : Nat} {dir : Dir} {data : Bytes} (h : StoreInv k s view w)
    (hdata : data.length = k.stride elabel) (hdst : dst < 2 ^ 64) (hle : epoch ≤ w)
    (hstep : s.onOvGraph vlabel (fun g => g.putEdge epoch src elabel dir dst data) = .ok s') :
    ∃ seen, StoreInv k s' (addOuterEntry view vlabel src elabel dir ⟨seen, ⟨dst, data⟩⟩) w := by
  obtain ⟨l, g, hone, hg⟩ := onOvGraph_cases hstep
  have hl := h.label vlabel l hone.before
  obtain ⟨-, hsame, seen, hgraph⟩ := hl.ovGraph.putEdge hdata hdst hle (Or.inl hl.ovSmall) hg
  exact ⟨seen, h.one hone fun hl => { hl with
    ovGraph := hgraph
    outer := hsame.vertexId.trans hl.outer
    maps := hl.maps.congr rfl rfl rfl
    ovSmall := Nat.le_trans (Nat.le_of_eq hsame.capacity) hl.ovSmall }⟩

theorem constructEprop_length {elabel : Nat} {eprop : List Bytes} {data : Bytes} {strings : StringBuffer}
    (h : s.constructEprop elabel eprop = .ok (data, strings)) :
    data.length = GraphStore.edgeDataSize (s.edgeDtypes.getD elabel []) ∧ elabel < s.edgeDtypes.length := by
  unfold GraphStore.constructEprop at h
  split at h
  · cases h
  · rename_i dtypes hdtypes
    obtain ⟨r, -, h⟩ := bind_eq_ok h
    rw [← (Prod.mk.inj (Except.ok.inj h)).1, read_length, List.getD_eq_getElem?_getD, hdtypes]
    exact ⟨rfl, (List.getElem?_eq_some_iff.mp hdtypes).1⟩

/-- The labels of an edge are labels of the store. -/
structure EdgeKnown (k : Partition) (r : GraphStore.EdgeRecord) : Prop where
  elabel : r.elabel < k.edgeLabels
  src : k.parser.getLabelId r.srcVid < k.labels
  dst : k.parser.getLabelId r.dstVid < k.labels

theorem StoreInv.prepareEdge {draws : GraphStore.Draws} {r : GraphStore.EdgeRecord} {data : Bytes}
    (h : StoreInv k s view w) (hstep : s.prepareEdge draws r = .ok (data, s')) :
    StoreInv k s' view w ∧ data.length = k.stride r.elabel ∧ EdgeKnown k r := by
  unfold GraphStore.prepareEdge at hstep
  obtain ⟨s1, hsrc, hstep⟩ := bind_eq_ok hstep
  obtain ⟨s2, hdst, hstep⟩ := bind_eq_ok hstep
  obtain ⟨⟨data', strings⟩, hprop, hstep⟩ := bind_eq_ok hstep
  obtain ⟨hdata, hs⟩ := Prod.mk.inj (Except.ok.inj hstep)
  obtain ⟨h1, hsrcLabel⟩ := h.writer hsrc
  obtain ⟨h2, hdstLabel⟩ := h1.writer hdst
  obtain ⟨hlength, hlabel⟩ := constructEprop_length hprop
  rw [h.idParser] at hsrcLabel
  rw [h1.idParser] at hdstLabel
  rw [h2.edgeLabels] at hlabel
  rw [← hdata, ← hs, hlength, h2.stride]
  exact ⟨⟨h2.idParser, h2.localPid, h2.labels, h2.edgeLabels, h2.stride, h2.label⟩, rfl, hlabel, hsrcLabel, hdstLabel⟩

theorem LabelInv.addOuterVertex {vid : Nat} {externalId : Bytes} {strings : StringBuffer}
    (h : LabelInv k vlabel l v w) (hparser : s.idParser = k.parser)
    (hforeign : k.parser.getFid vid ≠ k.pid ∧ k.parser.getLabelId vid = vlabel) (hnew : l.keyLid vid = none)
    (hstep : s.addOuterVertex l vlabel vid externalId = .ok (l', strings)) :
    LabelInv k vlabel l' { v with outer := v.outer ++ [vid] } w := by
  unfold GraphStore.addOuterVertex at hstep
  dsimp only at hstep
  obtain ⟨vtable, hvtable, hstep⟩ := bind_eq_ok hstep
  obtain ⟨⟨value, strings'⟩, -, hstep⟩ := bind_eq_ok hstep
  obtain ⟨l2, hmap, hstep⟩ := bind_eq_ok hstep
  obtain ⟨map, rfl⟩ := mapVertex_eq hmap
  obtain ⟨rfl, -⟩ := Prod.mk.inj (Except.ok.inj hstep)
  have hlid : s.outerLid vlabel l.ovGraph.vertexId = outerLidOf k.parser vlabel v.outer.length := by
    rw [h.outer, ← hparser]
    rfl
  rw [hlid] at hvtable
  constructor
  · exact h.graph
  · exact h.ovGraph.newVertex
  · exact h.inner
  · show l.ovGraph.newVertex.vertexId = (v.outer ++ [vid]).length
    rw [newVertex_vertexId, h.outer, List.length_append, List.length_singleton]
  · refine h.maps.add hnew hforeign ?_ ?_ ?_
    · show Function.update l.keyLid vid (some l.ovGraph.vertexId) = _
      rw [h.outer]
    · show Function.update l.ovl2g l.ovGraph.vertexId vid = _
      rw [h.outer]
    · show emplace l.ovg2l vid (s.outerLid vlabel l.ovGraph.vertexId) = _
      rw [hlid]
  · show TableOk k.parser vlabel (k.tableSize vlabel) vtable v.inner (v.outer ++ [vid]).length
    rw [List.length_append, List.length_singleton]
    exact h.table.addOuter hvtable
  · exact h.small
  · show l.ovGraph.newVertex.blockManager.capacity ≤ 2 ^ 35
    rw [newVertex_capacity]
    exact h.ovSmall

def withOuter (view : Nat → LabelView) (vlabel : Nat) (outer : List Nat) : Nat → LabelView :=
  Function.update view vlabel { view vlabel with outer := outer }

/-- The outer vertex of an endpoint is known afterwards, and the ones before stay where they are. -/
theorem StoreInv.outerEndpoint {recycle : Bool} {epoch vid ov : Nat} {externalId : Bytes}
    (h : StoreInv k s view w) (hfid : k.parser.getFid vid ≠ k.pid)
    (hstep : s.outerEndpoint recycle epoch vid externalId = .ok (ov, s')) :
    ∃ outer, StoreInv k s' (withOuter view (k.parser.getLabelId vid) outer) w ∧
      (view (k.parser.getLabelId vid)).outer <+: outer ∧ outer[ov]? = some vid := by
  unfold GraphStore.outerEndpoint at hstep
  rw [h.idParser] at hstep
  dsimp only at hstep
  obtain ⟨l, hl, hstep⟩ := bind_eq_ok hstep
  have hl := getLabel_eq hl
  have hlabel := (h.label _ l hl).ovWriter recycle epoch
  split at hstep
  · rename_i known hknown
    obtain ⟨hov, hs⟩ := Prod.mk.inj (Except.ok.inj hstep)
    rw [← hov, ← hs]
    refine ⟨_, ?_, List.prefix_rfl, (hlabel.maps.keyLid vid known).mp hknown⟩
    exact h.one (oneLabel_setLabel hl _ _) fun _ => hlabel
  · rename_i hnew
    obtain ⟨⟨l', strings⟩, hadd, hstep⟩ := bind_eq_ok hstep
    obtain ⟨hov, hs⟩ := Prod.mk.inj (Except.ok.inj hstep)
    rw [← hov, ← hs]
    refine ⟨_, ?_, List.prefix_append _ [vid], ?_⟩
    · exact h.one (oneLabel_setLabel hl _ _)
        fun _ => hlabel.addOuterVertex h.idParser ⟨hfid, rfl⟩ hnew hadd
    · have hcount : (l.ovGraph.createGraphWriter recycle epoch).vertexId =
          (view (k.parser.getLabelId vid)).outer.length := hlabel.outer
      rw [hcount]
      exact List.getElem?_concat_length

end steps

end Gart.Store
