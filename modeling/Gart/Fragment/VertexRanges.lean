import Gart.Fragment.TableReader
import Gart.Store.TableWords

/-!
# The ranges of a label (interfaces/fragment/gart_fragment.h)

The ids of the inner vertices of a label count from the low end of the offsets, those of the outer vertices from the
high end. A snapshot of a label is what a fragment has of it once its bounds are published.
-/

namespace Gart.Fragment
open Gart.Outcome Gart.Store

/-- What a fragment has for the ids of its vertices, with the bounds of the outer ones. -/
structure VertexRanges extends VertexIds where
  minOuterOffsets : Nat → Int

namespace VertexRanges

/-- `IsOuterVertex` (`gart_fragment.h:1021-1025`) -/
def isOuterVertex (f : VertexRanges) (v : Nat) : Bool :=
  decide (f.minOuterOffsets (f.vidParser.getLabelId v) ≤ (f.vidParser.getOffset v : Int))

/-- `GetOffset` (`gart_fragment.h:1187-1194`) -/
def getOffset (f : VertexRanges) (v : Nat) : Nat :=
  if f.isInnerVertex v then f.vidParser.getOffset v else f.maxOuterIdOffset - f.vidParser.getOffset v

/-- `GetMaxInnerVerticesNum` (`gart_fragment.h:1196-1198`) -/
def getMaxInnerVerticesNum (f : VertexRanges) (vlabel : Nat) : Nat := (f.maxInnerOffsets vlabel + 1).toNat

/-- `GetMaxOuterVerticesNum` (`gart_fragment.h:1200-1202`) -/
def getMaxOuterVerticesNum (f : VertexRanges) (vlabel : Nat) : Nat :=
  ((f.maxOuterIdOffset : Int) - f.minOuterOffsets vlabel + 1).toNat

/-- The bounds that `Init` takes from the blob schema. -/
def ofStore (s : GraphStore) : VertexRanges :=
  { VertexIds.ofStore s with
    minOuterOffsets := fun label =>
      ((VertexIds.ofStore s).maxOuterIdOffset : Int) + 1 -
        ((s.labels[label]?.map fun l => (vtableMeta l).max - (vtableMeta l).minOuter).getD 0 : Nat) }

end VertexRanges

/-- The two kinds of local ids of a label are told apart by their offsets. -/
structure SplitsLids (f : VertexRanges) (vlabel maxInner maxOuter : Nat) : Prop where
  lid : ∀ offset ≤ f.maxOuterIdOffset, f.vidParser.getLabelId (f.vidParser.generateId 0 vlabel offset) = vlabel ∧
    f.vidParser.getOffset (f.vidParser.generateId 0 vlabel offset) = offset
  outerLid : ∀ ov, outerLidOf f.vidParser vlabel ov = f.vidParser.generateId 0 vlabel (f.maxOuterIdOffset - ov)
  maxInnerOffset : f.maxInnerOffsets vlabel = (maxInner : Int) - 1
  minOuterOffset : f.minOuterOffsets vlabel = (f.maxOuterIdOffset : Int) + 1 - maxOuter
  room : maxInner + maxOuter ≤ f.maxOuterIdOffset + 1
  offsets : f.maxOuterIdOffset < 2 ^ 56

section lids
variable {f : VertexRanges} {vlabel maxInner maxOuter o ov : Nat}

theorem SplitsLids.getMaxInner (h : SplitsLids f vlabel maxInner maxOuter) :
    f.getMaxInnerVerticesNum vlabel = maxInner := by
  have hoffset := h.maxInnerOffset
  unfold VertexRanges.getMaxInnerVerticesNum
  omega

theorem SplitsLids.getMaxOuter (h : SplitsLids f vlabel maxInner maxOuter) :
    f.getMaxOuterVerticesNum vlabel = maxOuter := by
  have hoffset := h.minOuterOffset
  unfold VertexRanges.getMaxOuterVerticesNum
  omega

theorem SplitsLids.inner (h : SplitsLids f vlabel maxInner maxOuter) (ho : o < maxInner) :
    f.isInnerVertex (f.vidParser.generateId 0 vlabel o) = true ∧
      f.isOuterVertex (f.vidParser.generateId 0 vlabel o) = false ∧
      f.getOffset (f.vidParser.generateId 0 vlabel o) = o := by
  have hroom := h.room
  obtain ⟨hlabel, hoffset⟩ := h.lid o (by omega)
  have hinner : f.isInnerVertex (f.vidParser.generateId 0 vlabel o) = true := by
    unfold VertexIds.isInnerVertex
    rw [hlabel, hoffset, h.maxInnerOffset]
    exact decide_eq_true (by omega)
  refine ⟨hinner, ?_, ?_⟩
  · unfold VertexRanges.isOuterVertex
    rw [hlabel, hoffset, h.minOuterOffset]
    exact decide_eq_false (by omega)
  · unfold VertexRanges.getOffset
    rw [if_pos hinner, hoffset]

theorem SplitsLids.outer (h : SplitsLids f vlabel maxInner maxOuter) (hov : ov < maxOuter) :
    f.isInnerVertex (outerLidOf f.vidParser vlabel ov) = false ∧
      f.isOuterVertex (outerLidOf f.vidParser vlabel ov) = true ∧
      f.getOffset (outerLidOf f.vidParser vlabel ov) = ov := by
  have hroom := h.room
  obtain ⟨hlabel, hoffset⟩ := h.lid (f.maxOuterIdOffset - ov) (Nat.sub_le _ _)
  rw [h.outerLid]
  have hinner : f.isInnerVertex (f.vidParser.generateId 0 vlabel (f.maxOuterIdOffset - ov)) = false := by
    unfold VertexIds.isInnerVertex
    rw [hlabel, hoffset, h.maxInnerOffset]
    exact decide_eq_false (by omega)
  refine ⟨hinner, ?_, ?_⟩
  · unfold VertexRanges.isOuterVertex
    rw [hlabel, hoffset, h.minOuterOffset]
    exact decide_eq_true (by omega)
  · unfold VertexRanges.getOffset
    rw [hinner, if_neg Bool.false_ne_true, hoffset]
    omega

end lids

/-- A label of a fragment: a store that has applied records publishes the bounds of the label, and the fragment reads
its table when the store may have applied more. -/
structure LabelSnapshot where
  config : StoreConfig
  build : SchemaBuild
  lines : List (GraphStore.RecordDraws × Record)
  later : List (GraphStore.RecordDraws × Record)
  vlabel : Nat
  published : GraphStore
  current : GraphStore
  label : LabelStore
  table : LabelStore
  totalPartitions_lt : config.totalPartitions < 2 ^ 31
  offsets : (config.label vlabel).vertexCapacity + (config.label vlabel).ovVertexCapacity ≤
    2 ^ (IdParser.init config.totalPartitions).offsetWidth
  vlabel_lt : vlabel < maxVlabels
  dense : DenseOffsets (IdParser.init config.totalPartitions) (gidsOf ((lines ++ later).map Prod.snd))
  deletes : DeletesInserted (IdParser.init config.totalPartitions) config.localPid ((lines ++ later).map Prod.snd)
  run : lines.foldlM GraphStore.applyRecord (GraphStore.create config build) = .ok published
  more : later.foldlM GraphStore.applyRecord published = .ok current
  hasLabel : published.labels[vlabel]? = some label
  hasTable : current.labels[vlabel]? = some table
  fits : table.tableView.use ≤ (config.label vlabel).vertexCapacity + (config.label vlabel).ovVertexCapacity

namespace LabelSnapshot

def parser (x : LabelSnapshot) : IdParser := IdParser.init x.config.totalPartitions

def ranges (x : LabelSnapshot) : VertexRanges := .ofStore x.published

def size (x : LabelSnapshot) : Nat :=
  (x.config.label x.vlabel).vertexCapacity + (x.config.label x.vlabel).ovVertexCapacity

def innerVertices (x : LabelSnapshot) : Option (List Nat) :=
  Fragment.innerVertices (vtableMeta x.label) x.table.vtable.table x.table.vtable.size

def outerVertices (x : LabelSnapshot) : Option (List Nat) :=
  Fragment.outerVertices (vtableMeta x.label) x.table.vtable.table x.table.vtable.size

def vertices (x : LabelSnapshot) : Option (List Nat) :=
  Fragment.vertices (vtableMeta x.label) x.table.vtable.table x.table.vtable.size

variable (x : LabelSnapshot)

theorem words : TableWords x.parser x.vlabel x.size x.label.tableView ∧
    TableWords x.parser x.vlabel x.size x.table.tableView ∧
    PartsGrow x.size x.label.tableView x.table.tableView := by
  have hlids := @lidsOk_init _ x.vlabel _ x.totalPartitions_lt x.offsets
  have hfirst := applyRecords_tables x.run
  have hsecond := applyRecords_tables x.more
  obtain ⟨l0, hl0, hrun⟩ := hfirst.label x.vlabel x.label x.hasLabel
  obtain ⟨l1, hl1, hmore⟩ := hsecond.label x.vlabel x.table x.hasTable
  have hsame : l1 = x.label := Option.some.inj (hl1.symm.trans x.hasLabel)
  rw [hsame, hfirst.same.idParser, hfirst.same.localPid] at hmore
  have hdense := x.dense
  have hdeletes := x.deletes
  rw [List.map_append] at hdense hdeletes
  obtain ⟨hempty, hcount⟩ := @tableWords_create x.parser x.config.localPid x.vlabel x.size l0.tableView _
    (create_tableView hl0)
  have hdeletes' : DeletesInserted (IdParser.init x.config.totalPartitions) x.config.localPid
      (x.lines.map Prod.snd) := by
    intro before cmd after hsplit
    refine hdeletes before cmd (after ++ x.later.map Prod.snd) ?_
    rw [hsplit]
    simp
  have hdense' := hdense
  rw [gidsOf_append] at hdense'
  obtain ⟨hwords, -, hcount⟩ := @TableWords.run _ _ _ _ [] _ _ _ hlids hdense'.of_append hdeletes' hempty hcount hrun
    (Nat.le_trans (use_le_run hmore) x.fits)
  obtain ⟨hwords', hgrow, -⟩ := hwords.run hlids hdense hdeletes hcount hmore x.fits
  exact ⟨hwords, hwords', hgrow⟩

theorem lists : ∃ inner outer : List Nat,
    (∀ v ∈ inner, ∃ o < x.label.graph.vertexId, v = x.parser.generateId 0 x.vlabel o) ∧
    (∀ v ∈ outer, ∃ ov < x.label.ovGraph.vertexId, v = outerLidOf x.parser x.vlabel ov) ∧
    x.innerVertices = some inner ∧ x.outerVertices = some outer ∧ x.vertices = some (inner ++ outer) := by
  obtain ⟨hwords, hwords', hgrow⟩ := x.words
  have hlocation : (vtableMeta x.label).minOuterLocation + (x.label.ovGraph.vertexId + x.label.deletedOuter) =
      x.size := by
    have huse : x.label.graph.vertexId + x.label.deletedInner +
      (x.label.ovGraph.vertexId + x.label.deletedOuter) ≤ x.size := hwords.room
    have hsize : x.label.vtable.size = x.size := hwords.sameSize
    show x.label.vtable.size - (x.label.ovGraph.vertexId + x.label.deletedOuter) + _ = x.size
    omega
  have houter : x.size - (vtableMeta x.label).minOuterLocation = x.label.ovGraph.vertexId + x.label.deletedOuter := by
    omega
  have hsize : x.table.vtable.size = x.size := hwords'.sameSize
  unfold innerVertices outerVertices vertices
  rw [hsize]
  refine reads_words ?_ ?_ ?_
  · rw [houter]
    exact hwords.room
  · intro p hp
    have hsame : x.table.vtable.table p = x.label.vtable.table p := hgrow.inner p hp
    rw [hsame]
    exact hwords.inner.word p hp
  · rw [houter]
    intro p hp
    have hsame : x.table.vtable.table (VertexIterator.outerSlot x.size p) =
        x.label.vtable.table (VertexIterator.outerSlot x.size p) := hgrow.outer p hp
    rw [hsame]
    exact hwords.outer.word p hp

theorem idParser : x.ranges.vidParser = x.parser := (applyRecords_tables x.run).same.idParser

theorem splits : SplitsLids x.ranges x.vlabel x.label.graph.vertexId x.label.ovGraph.vertexId := by
  obtain ⟨hwords, -, -⟩ := x.words
  have huse : x.label.graph.vertexId + x.label.deletedInner +
    (x.label.ovGraph.vertexId + x.label.deletedOuter) ≤ x.size := hwords.room
  have hsize : x.label.vtable.size = x.size := hwords.sameSize
  have hparser := x.idParser
  have hoffsets : x.size ≤ 2 ^ (IdParser.init x.config.totalPartitions).offsetWidth := x.offsets
  have hmask : x.ranges.maxOuterIdOffset = 2 ^ (IdParser.init x.config.totalPartitions).offsetWidth - 1 := by
    show 2 ^ x.ranges.vidParser.offsetWidth - 1 = _
    rw [hparser]
    rfl
  have hpos : 0 < 2 ^ (IdParser.init x.config.totalPartitions).offsetWidth := Nat.two_pow_pos _
  have hbits := @IdParser.numToBitwidth_le x.config.totalPartitions 31 (by decide) (Nat.le_of_lt x.totalPartitions_lt)
  have hwidth := @IdParser.offsetWidth_eq x.config.totalPartitions (by omega)
  constructor
  · intro offset hle
    rw [hparser]
    refine ⟨IdParser.getLabelId_generateId (by omega) x.vlabel_lt, IdParser.getOffset_generateId (by omega) ?_⟩
    rw [← hwidth]
    omega
  · intro ov
    rw [hmask, hparser]
    rfl
  · exact (ofStore_label x.hasLabel).1
  · show ((x.ranges.maxOuterIdOffset : Int) + 1 - ((x.published.labels[x.vlabel]?.map _).getD 0 : Nat)) = _
    rw [x.hasLabel]
    show (x.ranges.maxOuterIdOffset : Int) + 1 -
      ((x.label.vtable.size - (x.label.vtable.size - x.label.ovGraph.vertexId) : Nat) : Int) = _
    omega
  · omega
  · have hle : 2 ^ (IdParser.init x.config.totalPartitions).offsetWidth ≤ 2 ^ 56 :=
      Nat.pow_le_pow_right (by decide) (by omega)
    omega

end LabelSnapshot

/-! ### Samples -/

theorem denseOffsets_one {parser : IdParser} {pid label : Nat} {gids : List Nat}
    (hone : ∀ gid ∈ gids, parser.getFid gid = pid ∧ parser.getLabelId gid = label)
    (hrange : gids.map parser.getOffset = List.range gids.length) : DenseOffsets parser gids := by
  intro pid' label'
  by_cases hsame : pid = pid' ∧ label = label'
  · have hall : arriving parser pid' label' gids = gids :=
      List.filter_eq_self.mpr fun gid hgid => decide_eq_true
        ⟨(hone gid hgid).1.trans hsame.1, (hone gid hgid).2.trans hsame.2⟩
    rw [hall]
    exact hrange
  · have hnone : arriving parser pid' label' gids = [] :=
      List.filter_eq_nil_iff.mpr fun gid hgid hmine => hsame
        ⟨(hone gid hgid).1.symm.trans (of_decide_eq_true hmine).1,
            (hone gid hgid).2.symm.trans (of_decide_eq_true hmine).2⟩
    rw [hnone]
    rfl

theorem exists_snapshot {log : List Record} {maxInner maxOuter : Nat} {lids : List Nat}
    (hdense : DenseOffsets (IdParser.init 2) (gidsOf log)) (hdeletes : deletedOf log = [])
    (hruns : ((initGraphSchema oneRelation).toOption.bind fun sb =>
      ((tableLines log).foldlM GraphStore.applyRecord (GraphStore.create (ofTwo 0) sb)).toOption.bind fun s =>
      (s.labels[0]?).map fun l => (l.graph.vertexId, l.ovGraph.vertexId,
        vertices (vtableMeta l) l.vtable.table l.vtable.size, decide (l.tableView.use ≤ 8))) =
      some (maxInner, maxOuter, some lids, true)) :
    ∃ x : LabelSnapshot, x.config = ofTwo 0 ∧ x.vlabel = 0 ∧ x.label.graph.vertexId = maxInner ∧
      x.label.ovGraph.vertexId = maxOuter ∧ x.vertices = some lids := by
  obtain ⟨sb, -, hruns⟩ := Option.bind_eq_some_iff.mp hruns
  obtain ⟨s, hs, hruns⟩ := Option.bind_eq_some_iff.mp hruns
  obtain ⟨l, hl, hruns⟩ := Option.map_eq_some_iff.mp hruns
  simp only [Prod.mk.injEq, decide_eq_true_eq] at hruns
  obtain ⟨hinner, houter, hlids, huse⟩ := hruns
  have hlog : ((tableLines log ++ []).map Prod.snd) = log := by
    unfold tableLines
    simp
  refine ⟨{ config := ofTwo 0, build := sb, lines := tableLines log, later := [], vlabel := 0, published := s
            current := s, label := l, table := l, totalPartitions_lt := by decide, offsets := by decide
            vlabel_lt := by decide, dense := hlog.symm ▸ hdense, deletes := ?_, run := ok_of_toOption hs, more := rfl
            hasLabel := hl, hasTable := hl, fits := huse }, rfl, rfl, hinner, houter, hlids⟩
  rw [hlog]
  intro before cmd after hsplit
  have hmem : cmd.vid ∈ deletedOf log := by
    rw [hsplit, deletedOf_append]
    exact List.mem_append_right _ List.mem_cons_self
  rw [hdeletes] at hmem
  cases hmem

end Gart.Fragment
