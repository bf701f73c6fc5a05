import Gart.Fragment.TableReader
import Gart.Store.EdgeEntryRun

/-!
# The properties of edges after deletions

A reader finds for every edge that it stops at the bytes that `construct_eprop` made of its properties when the edge
was added, as long as the markers of deletions have the size of the edges of their label.
-/

namespace Gart.Fragment
open Gart.ByteMemory Gart.Outcome Gart.Store Gart.Seggraph

/-- What a reader at an epoch finds in a list, if every entry has its own data. -/
def readOf (entries : List LogEntry) (e : Nat) : List (Nat × Bytes) :=
  (MarkerLog.yields (marksOf (entries.map LogEntry.edge)) (upToEpoch e entries).length []).filterMap fun p =>
    entries[p]?.map fun entry => (entry.edge.dst, entry.edge.data)

theorem mem_readOf {entries : List LogEntry} {e : Nat} {value : Nat × Bytes} (h : value ∈ readOf entries e) :
    value ∈ edgesIn entries := by
  obtain ⟨p, hp, hvalue⟩ := List.mem_filterMap.mp h
  obtain ⟨entry, hentry, rfl⟩ := Option.map_eq_some_iff.mp hvalue
  have hmark := (MarkerLog.mem_yields hp).2
  have hedge : (entries.map LogEntry.edge)[p]? = some entry.edge := by
    rw [List.getElem?_map, hentry]
    rfl
  rw [marksOf_getElem hedge] at hmark
  refine List.mem_map.mpr ⟨entry, List.mem_filter.mpr ⟨List.mem_of_getElem? hentry, decide_eq_true ?_⟩, rfl⟩
  by_contra hflag
  rw [if_pos (Nat.not_lt.mp hflag)] at hmark
  cases hmark

theorem reads_entries {entries : List LogEntry} {positions : List Nat} {values : List (Nat × Bytes)}
    (h : List.Forall₂ (Reads True (entries.map LogEntry.edge)) positions values) :
    values = positions.filterMap fun p => entries[p]?.map fun entry => (entry.edge.dst, entry.edge.data) := by
  induction h with
  | nil => rfl
  | cons hread _ ih =>
    obtain ⟨edge, hedge, hdst, hdata⟩ := hread
    rw [List.getElem?_map] at hedge
    obtain ⟨entry, hentry, rfl⟩ := Option.map_eq_some_iff.mp hedge
    rw [List.filterMap_cons_some (by rw [hentry]; rfl), ← ih]
    exact congrArg (· :: _) (Prod.ext hdst (hdata trivial))

/-- The list of a vertex in either graph of its label consists of the edges that a run has added to it, with the
bytes of their properties, and of markers, and a reader finds the data of the entries that it stops at. -/
theorem edge_data_kept {c : StoreConfig} {sb : SchemaBuild} (lines : List (GraphStore.RecordDraws × Record))
    {s : GraphStore} (hcap : ∀ i, (c.label i).blockSize ≤ 2 ^ 35) (hov : ∀ i, (c.label i).ovBlockSize ≤ 2 ^ 35)
    (hparts : c.totalPartitions < 2 ^ 31) (hfits : AllMarkersFit (GraphStore.create c sb) lines)
    (hrun : lines.foldlM GraphStore.applyRecord (GraphStore.create c sb) = .ok s) (outer : Bool)
    (vlabel v elabel : Nat) (d : Dir) {l : LabelStore} (hl : s.labels[vlabel]? = some l) :
    ∃ entries, edgesIn entries = onList (fun l => c.edgeIsUndirected.getD l false) outer vlabel v elabel d
        ((GraphStore.create c sb).entriesOf lines) ∧
      ∀ e, readAdjList (l.side outer) v elabel d (GraphStore.edgeDataSize (s.edgeDtypes.getD elabel [])) e =
        .ok (readOf entries e) := by
  obtain ⟨log, h⟩ := (@entryLists_create c sb hcap hov).run (partitionOf_narrow hparts) hfits hrun
  rw [List.nil_append] at h
  obtain ⟨own, hgraph⟩ := (h.graph outer vlabel l hl).graph
  refine ⟨log outer vlabel v elabel d, h.entries outer vlabel v elabel d, fun e => ?_⟩
  rw [← h.stride elabel]
  obtain ⟨values, hvalues, hreads⟩ :=
    (readAdjList_spec hgraph v elabel d (Nat.le_refl _) (fun _ => rfl) e).exists_ok
  rw [hvalues]
  exact congrArg Except.ok (reads_entries hreads)

/-- An edge label with 57 columns, whose null bitmap has 8 bytes. -/
def wideRelation : GraphMapping :=
  { vertexTypes := [{ name := "person", tableSchema := [], propInfo := [] }]
    edgeTypes := [{ name := "knows"
                    tableSchema := (List.range 57).map fun i => (toString i, "int")
                    propInfo := (List.range 57).map fun i =>
                      { property := toString i, dataField := toString i, columnFamily := none } }] }

def wideData (n : UInt8) : Bytes := zeros 8 ++ (List.replicate 57 [n, 0, 0, 0]).flatten

def firstDeleted : List Record :=
  [.addVertex { writeEpoch := 1, vid := 0, externalId := "a", props := [] },
    .addVertex { writeEpoch := 1, vid := 2, externalId := "b", props := [] },
    .addEdge { writeEpoch := 1, elabel := 0, srcVid := 0, dstVid := 2, srcExternalId := "a", dstExternalId := "b"
               eprop := List.replicate 57 "7" },
    .addEdge { writeEpoch := 1, elabel := 0, srcVid := 0, dstVid := 0, srcExternalId := "a", dstExternalId := "a"
               eprop := List.replicate 57 "9" },
    .deleteEdge { writeEpoch := 2, elabel := 0, srcVid := 0, dstVid := 2, srcExternalId := "a", dstExternalId := "b"
                  eprop := [] }]

theorem edge_data_kept_firstDeleted : ∃ sb s l entries, initGraphSchema wideRelation = .ok sb ∧
    (tableLines firstDeleted).foldlM GraphStore.applyRecord (GraphStore.create (ofTwo 0) sb) = .ok s ∧
    s.labels[0]? = some l ∧ edgesIn entries = [(2, wideData 7), (0, wideData 9)] ∧
    ∀ e, readAdjList (l.side false) 0 0 .eout (GraphStore.edgeDataSize (s.edgeDtypes.getD 0 [])) e =
      .ok (readOf entries e) := by
  have hruns : ((initGraphSchema wideRelation).toOption.bind fun sb =>
      ((tableLines firstDeleted).foldlM GraphStore.applyRecord (GraphStore.create (ofTwo 0) sb)).toOption.bind fun s =>
      (s.labels[0]?).map fun _ => (decide (AllMarkersFit (GraphStore.create (ofTwo 0) sb) (tableLines firstDeleted)),
        onList (fun l => (ofTwo 0).edgeIsUndirected.getD l false) false 0 0 0 .eout
          ((GraphStore.create (ofTwo 0) sb).entriesOf (tableLines firstDeleted)))) =
      some (true, [(2, wideData 7), (0, wideData 9)]) := by
    decide +kernel
  obtain ⟨sb, hsb, hruns⟩ := Option.bind_eq_some_iff.mp hruns
  obtain ⟨s, hs, hruns⟩ := Option.bind_eq_some_iff.mp hruns
  obtain ⟨l, hl, hruns⟩ := Option.map_eq_some_iff.mp hruns
  obtain ⟨hfits, hadded⟩ := Prod.mk.inj hruns
  obtain ⟨entries, hentries, hreads⟩ := edge_data_kept (tableLines firstDeleted)
    (fun i => Nat.pow_le_pow_right (by decide) (by decide)) (fun i => Nat.pow_le_pow_right (by decide) (by decide))
    (by decide) (of_decide_eq_true hfits) (ok_of_toOption hs) false 0 0 0 .eout hl
  exact ⟨sb, s, l, entries, ok_of_toOption hsb, ok_of_toOption hs, hl, hentries.trans hadded, hreads⟩

def intRelation : GraphMapping :=
  { vertexTypes := [{ name := "person", tableSchema := [], propInfo := [] }]
    edgeTypes := [{ name := "knows"
                    tableSchema := [("a", "int")]
                    propInfo := [{ property := "A", dataField := "a", columnFamily := none }] }] }

/-- Edges with the values 7 and 9, of which the second is deleted. -/
def secondDeleted : List Record :=
  [.addVertex { writeEpoch := 1, vid := 0, externalId := "a", props := [] },
    .addVertex { writeEpoch := 1, vid := 2, externalId := "b", props := [] },
    .addVertex { writeEpoch := 1, vid := 4, externalId := "c", props := [] },
    .addEdge { writeEpoch := 1, elabel := 0, srcVid := 0, dstVid := 2, srcExternalId := "a", dstExternalId := "b"
               eprop := ["7"] },
    .addEdge { writeEpoch := 1, elabel := 0, srcVid := 0, dstVid := 4, srcExternalId := "a", dstExternalId := "c"
               eprop := ["9"] },
    .deleteEdge { writeEpoch := 2, elabel := 0, srcVid := 0, dstVid := 4, srcExternalId := "a", dstExternalId := "c"
                  eprop := [] }]

/-- The value 7 is lost. -/
theorem data_lost_after_delete : ∃ sb s l, initGraphSchema intRelation = .ok sb ∧
    (tableLines secondDeleted).foldlM GraphStore.applyRecord (GraphStore.create (ofTwo 0) sb) = .ok s ∧
    s.labels[0]? = some l ∧
    ¬ ∃ entries, edgesIn entries = onList (fun l => (ofTwo 0).edgeIsUndirected.getD l false) false 0 0 0 .eout
        ((GraphStore.create (ofTwo 0) sb).entriesOf (tableLines secondDeleted)) ∧
      ∀ e, readAdjList (l.side false) 0 0 .eout (GraphStore.edgeDataSize (s.edgeDtypes.getD 0 [])) e =
        .ok (readOf entries e) := by
  have hruns : ((initGraphSchema intRelation).toOption.bind fun sb =>
      ((tableLines secondDeleted).foldlM GraphStore.applyRecord (GraphStore.create (ofTwo 0) sb)).toOption.bind fun s =>
      (s.labels[0]?).map fun l =>
        ((readAdjList (l.side false) 0 0 .eout (GraphStore.edgeDataSize (s.edgeDtypes.getD 0 [])) 2).toOption,
          onList (fun l => (ofTwo 0).edgeIsUndirected.getD l false) false 0 0 0 .eout
            ((GraphStore.create (ofTwo 0) sb).entriesOf (tableLines secondDeleted)))) =
      some (some [(2, [0, 0, 0, 0, 0])], [(2, [0, 7, 0, 0, 0]), (4, [0, 9, 0, 0, 0])]) := by
    decide +kernel
  obtain ⟨sb, hsb, hruns⟩ := Option.bind_eq_some_iff.mp hruns
  obtain ⟨s, hs, hruns⟩ := Option.bind_eq_some_iff.mp hruns
  obtain ⟨l, hl, hruns⟩ := Option.map_eq_some_iff.mp hruns
  obtain ⟨hread, hadded⟩ := Prod.mk.inj hruns
  refine ⟨sb, s, l, ok_of_toOption hsb, ok_of_toOption hs, hl, ?_⟩
  rintro ⟨entries, hentries, hreads⟩
  rw [hreads 2] at hread
  have hmem : (2, [0, 0, 0, 0, 0]) ∈ edgesIn entries := by
    refine @mem_readOf entries 2 _ ?_
    rw [Option.some.inj hread]
    exact List.mem_cons_self
  rw [hentries, hadded] at hmem
  exact absurd hmem (by decide)

end Gart.Fragment
