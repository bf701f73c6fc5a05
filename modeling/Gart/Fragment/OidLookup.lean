import Gart.Fragment.EdgeTypes
import Gart.Fragment.VertexRanges
import Gart.Store.OidMaps
import Gart.Store.TableMarks

/-!
# Looking up external ids (GartFragment::GetVertex)

The vertex map of a label gives the vertex that was first to come under an external id, whether it is deleted or not.
The lists of vertices leave deleted ones out.
-/

namespace Gart.Fragment
open Gart.ByteMemory Gart.Outcome Gart.MarkerLog Gart.Store

/-- What a fragment has to look up the vertices of its labels. -/
structure VertexLookup extends VertexIds where
  vertexMaps : Nat → Int → Option Nat
  ovg2lMaps : Nat → Nat → Option Nat

namespace VertexLookup

/-- `InnerVertexGid2Vertex` (`gart_fragment.h:1088-1095`) -/
def innerVertexGid2Vertex (f : VertexLookup) (gid : Nat) : Option Nat :=
  if f.vidParser.getFid gid = f.fid then some (f.vidParser.getLid gid) else none

/-- `OuterVertexGid2Vertex` (`gart_fragment.h:1097-1106`) -/
def outerVertexGid2Vertex (f : VertexLookup) (gid : Nat) : Option Nat :=
  f.ovg2lMaps (f.vidParser.getLabelId gid) gid

/-- `Gid2Vertex` (`gart_fragment.h:998-1001`) -/
def gid2Vertex (f : VertexLookup) (gid : Nat) : Option Nat :=
  if f.vidParser.getFid gid = f.fid then f.innerVertexGid2Vertex gid else f.outerVertexGid2Vertex gid

/-- `GetVertex` (`gart_fragment.h:558-569`) -/
def getVertex (f : VertexLookup) (label : Nat) (oid : Int) : Option Nat := (f.vertexMaps label oid).bind f.gid2Vertex

def ofStore (s : GraphStore) : VertexLookup :=
  { VertexIds.ofStore s with
    vertexMaps := fun label => (s.labels[label]?.map LabelStore.vertexMap).getD fun _ => none
    ovg2lMaps := fun label => (s.labels[label]?.map LabelStore.ovg2l).getD fun _ => none }

end VertexLookup

/-- The vertices of a label that come to a partition, with the external ids that they come under: an inner vertex
when it is inserted, an outer one when the first edge meets it. -/
def arrivals (parser : IdParser) (pid vlabel : Nat) : (Nat → Bool) → List Record → List (Nat × Bytes)
  | _, [] => []
  | known, .addVertex cmd :: log =>
    if parser.getLabelId cmd.vid = vlabel ∧ parser.getFid cmd.vid = pid then
      (cmd.vid, bytesOf cmd.externalId) :: arrivals parser pid vlabel known log
    else arrivals parser pid vlabel known log
  | known, .addEdge cmd :: log =>
    match outerOf parser pid cmd.toRecord with
    | some outer =>
      if parser.getLabelId outer.1 = vlabel ∧ known outer.1 = false then
        outer :: arrivals parser pid vlabel (Function.update known outer.1 true) log
      else arrivals parser pid vlabel known log
    | none => arrivals parser pid vlabel known log
  | known, _ :: log => arrivals parser pid vlabel known log

def HasOid (oid : Int) (text : Bytes) : Prop := (readLong text).toOption = some oid

instance (oid : Int) (text : Bytes) : Decidable (HasOid oid text) :=
  inferInstanceAs (Decidable ((readLong text).toOption = some oid))

def firstWith (oid : Int) (xs : List (Nat × Bytes)) : Option Nat :=
  (xs.find? fun x => HasOid oid x.2).map Prod.fst

section arrive
variable {parser : IdParser} {pid vlabel gid : Nat} {known : Nat → Bool} {log : List Record} {text : Bytes} {oid : Int}
  {x x' : OidView}

theorem firstWith_cons (oid : Int) (gid : Nat) (text : Bytes) (xs : List (Nat × Bytes)) :
    firstWith oid ((gid, text) :: xs) = if HasOid oid text then some gid else firstWith oid xs := by
  unfold firstWith
  rw [List.find?_cons]
  by_cases h : HasOid oid text
  · rw [if_pos h, decide_eq_true h]
    rfl
  · rw [if_neg h, decide_eq_false h]

theorem mem_of_firstWith {xs : List (Nat × Bytes)} (h : firstWith oid xs = some gid) :
    ∃ text, (gid, text) ∈ xs ∧ HasOid oid text := by
  obtain ⟨first, hfirst, hgid⟩ := Option.map_eq_some_iff.mp h
  have hpred := List.find?_some hfirst
  refine ⟨first.2, ?_, of_decide_eq_true hpred⟩
  rw [← hgid]
  exact List.mem_of_find?_eq_some hfirst

theorem exists_firstWith {xs : List (Nat × Bytes)} (hmem : (gid, text) ∈ xs) (hoid : HasOid oid text) :
    ∃ first, firstWith oid xs = some first := by
  unfold firstWith
  cases hfind : xs.find? fun x => decide (HasOid oid x.2) with
  | none =>
    have hnone := List.find?_eq_none.mp hfind _ hmem
    exact absurd (decide_eq_true hoid) hnone
  | some first => exact ⟨first.1, rfl⟩

theorem arrives_of_mem (hmem : (gid, text) ∈ arrivals parser pid vlabel known log) :
    gid ∈ arriving parser pid vlabel (gidsOf log) ∨ gid ∈ metBy parser pid log ∧ parser.getLabelId gid = vlabel := by
  induction log generalizing known with
  | nil => cases hmem
  | cons r log ih =>
    have hgids : gidsOf (r :: log) = gidsOf [r] ++ gidsOf log := gidsOf_append [r] log
    have hmet : metBy parser pid (r :: log) = metBy parser pid [r] ++ metBy parser pid log := metBy_append [r] log
    rw [hgids, hmet, arriving_append]
    have hlater : ∀ known, (gid, text) ∈ arrivals parser pid vlabel known log →
        gid ∈ arriving parser pid vlabel (gidsOf [r]) ++ arriving parser pid vlabel (gidsOf log) ∨
          gid ∈ metBy parser pid [r] ++ metBy parser pid log ∧ parser.getLabelId gid = vlabel := by
      intro known hmem
      rcases ih hmem with hin | ⟨hout, hlabel⟩
      · exact Or.inl (List.mem_append_right _ hin)
      · exact Or.inr ⟨List.mem_append_right _ hout, hlabel⟩
    cases r with
    | addVertex cmd =>
      unfold arrivals at hmem
      split at hmem
      · rename_i hmine
        rcases List.mem_cons.mp hmem with hnow | hmem
        · refine Or.inl (List.mem_append_left _ ?_)
          rw [(Prod.mk.inj hnow).1]
          exact mem_arriving.mpr ⟨List.mem_singleton.mpr rfl, hmine.2, hmine.1⟩
        · exact hlater _ hmem
      · exact hlater _ hmem
    | addEdge cmd =>
      unfold arrivals at hmem
      split at hmem
      · rename_i outer houter
        split at hmem
        · rename_i hnew
          rcases List.mem_cons.mp hmem with hnow | hmem
          · refine Or.inr ⟨List.mem_append_left _ ?_, ?_⟩
            · refine List.mem_filterMap.mpr ⟨cmd.toRecord, List.mem_singleton.mpr rfl, ?_⟩
              rw [← outerOf_fst, houter, ← hnow]
              rfl
            · rw [← hnew.1, ← hnow]
          · exact hlater _ hmem
        · exact hlater _ hmem
      · exact hlater _ hmem
    | updateVertex cmd => exact hlater _ hmem
    | deleteVertex cmd => exact hlater _ hmem
    | deleteEdge cmd => exact hlater _ hmem
    | bulkloadEnd epoch => exact hlater _ hmem
    | unsupported op => exact hlater _ hmem

theorem OidView.map_spec (hnumeric : x.isString = false) (h : x.map text gid = .ok x') :
    x'.isString = false ∧ x'.known = x.known ∧
      ∀ oid, x'.vertexMap oid = (x.vertexMap oid).or (if HasOid oid text then some gid else none) := by
  unfold OidView.map at h
  rw [if_neg (by rw [hnumeric]; decide)] at h
  obtain ⟨key, hkey, h⟩ := bind_eq_ok h
  rw [← Except.ok.inj h]
  refine ⟨hnumeric, rfl, fun oid => ?_⟩
  have hiff : HasOid oid text ↔ oid = key := by
    unfold HasOid
    rw [hkey]
    exact ⟨fun hsome => (Option.some.inj hsome).symm, fun heq => congrArg some heq.symm⟩
  show emplace x.vertexMap key gid oid = _
  rw [emplace_apply]
  by_cases hsame : oid = key
  · rw [if_pos hsame, if_pos (hiff.mpr hsame)]
  · rw [if_neg hsame, if_neg fun hoid => hsame (hiff.mp hoid)]

theorem vertexMap_run (hnumeric : x.isString = false)
    (hrun : log.foldlM (OidView.apply parser pid false vlabel) x = .ok x') (oid : Int) :
    x'.vertexMap oid = (x.vertexMap oid).or (firstWith oid (arrivals parser pid vlabel x.known log)) := by
  induction log generalizing x with
  | nil =>
    rw [← Except.ok.inj hrun]
    exact (Option.or_none).symm
  | cons r log ih =>
    rw [List.foldlM_cons] at hrun
    obtain ⟨x1, hfirst, hrest⟩ := bind_eq_ok hrun
    have hsame : (.ok x : Except StoreFault OidView) = .ok x1 →
        x'.vertexMap oid = (x.vertexMap oid).or (firstWith oid (arrivals parser pid vlabel x.known log)) := by
      intro heq
      rw [Except.ok.inj heq]
      rw [← Except.ok.inj heq] at hrest ⊢
      exact ih hnumeric hrest
    -- a vertex that comes under an id is in front of those that come later
    have hcomes : ∀ gid text known, x1.isString = false → x1.known = known →
        (∀ oid, x1.vertexMap oid = (x.vertexMap oid).or (if HasOid oid text then some gid else none)) →
        x'.vertexMap oid =
          (x.vertexMap oid).or (firstWith oid ((gid, text) :: arrivals parser pid vlabel known log)) := by
      intro gid text known hnumeric1 hknown1 hmap1
      rw [ih hnumeric1 hrest, hknown1, hmap1, Option.or_assoc, firstWith_cons]
      by_cases hoid : HasOid oid text
      · rw [if_pos hoid, if_pos hoid]
        rfl
      · rw [if_neg hoid, if_neg hoid]
        rfl
    cases r with
    | addVertex cmd =>
      unfold OidView.apply at hfirst
      dsimp only at hfirst
      unfold arrivals
      split at hfirst
      · rename_i hmine
        have hhere : parser.getFid cmd.vid = pid := hmine.2.resolve_left Bool.false_ne_true
        obtain ⟨hnumeric1, hknown1, hmap1⟩ := OidView.map_spec hnumeric hfirst
        rw [if_pos ⟨hmine.1, hhere⟩]
        exact hcomes _ _ _ hnumeric1 hknown1 hmap1
      · rename_i hnot
        rw [if_neg fun hmine => hnot ⟨hmine.1, Or.inr hmine.2⟩]
        exact hsame hfirst
    | addEdge cmd =>
      unfold OidView.apply at hfirst
      dsimp only at hfirst
      unfold arrivals
      cases houter : outerOf parser pid cmd.toRecord with
      | none =>
        rw [houter] at hfirst
        exact hsame hfirst
      | some outer =>
        rw [houter] at hfirst
        dsimp only at hfirst ⊢
        split at hfirst
        · rename_i hlabel
          unfold OidView.meet at hfirst
          split at hfirst
          · rename_i hknown
            rw [if_neg (by rw [hknown]; exact fun hand => Bool.noConfusion hand.2)]
            exact hsame hfirst
          · rename_i hunknown
            dsimp only at hfirst
            rw [if_neg Bool.false_ne_true] at hfirst
            obtain ⟨hnumeric1, hknown1, hmap1⟩ := @OidView.map_spec _ _ { x with
              known := Function.update x.known outer.1 true } _ hnumeric hfirst
            rw [if_pos ⟨hlabel, Bool.not_eq_true _ ▸ hunknown⟩]
            exact hcomes _ _ _ hnumeric1 hknown1 hmap1
        · rename_i hlabel
          rw [if_neg fun hand => hlabel hand.1]
          exact hsame hfirst
    | updateVertex cmd => exact hsame hfirst
    | deleteVertex cmd => exact hsame hfirst
    | deleteEdge cmd => exact hsame hfirst
    | bulkloadEnd epoch => exact hsame hfirst
    | unsupported op => exact hsame hfirst

theorem create_oidView {c : StoreConfig} {sb : SchemaBuild} {l : LabelStore}
    (h : (GraphStore.create c sb).labels[vlabel]? = some l) :
    l.oidView.vertexMap = (fun _ => none) ∧ l.oidView.known = (fun _ => false) ∧
      l.oidView.isString = (c.label vlabel).externalIdIsString := by
  unfold GraphStore.create at h
  dsimp only at h
  rw [List.getElem?_map, List.getElem?_zipIdx] at h
  obtain ⟨entry, hentry, rfl⟩ := Option.map_eq_some_iff.mp h
  obtain ⟨layout, -, rfl⟩ := Option.map_eq_some_iff.mp hentry
  rw [Nat.zero_add]
  exact ⟨rfl, rfl, rfl⟩

end arrive

namespace LabelSnapshot

variable (x : LabelSnapshot)

def log : List Record := x.lines.map Prod.snd

def lookup : VertexLookup := .ofStore x.published

/-- The vertices that come under external ids up to the published epoch. -/
def arrivals : List (Nat × Bytes) := Fragment.arrivals x.parser x.config.localPid x.vlabel (fun _ => false) x.log

def Yields (oid : Int) (inner outer : List Nat) (v : Nat) : Prop :=
  ∃ gid text, (gid, text) ∈ x.arrivals ∧ HasOid oid text ∧ x.lookup.gid2Vertex gid = some v ∧ (v ∈ inner ∨ v ∈ outer)

/-- `GetVertex` finds a vertex of the lists with the external id, when there is one. -/
structure Agrees (oid : Int) (inner outer : List Nat) : Prop where
  found : ∀ v, x.lookup.getVertex x.vlabel oid = some v → x.Yields oid inner outer v
  finds : ∀ v, x.Yields oid inner outer v → (x.lookup.getVertex x.vlabel oid).isSome

variable {x} {gid v : Nat} {oid : Int} {inner outer : List Nat}

theorem lookup_label :
    x.lookup.vertexMaps x.vlabel = x.label.vertexMap ∧ x.lookup.ovg2lMaps x.vlabel = x.label.ovg2l := by
  unfold lookup VertexLookup.ofStore
  dsimp only
  rw [x.hasLabel]
  exact ⟨rfl, rfl⟩

theorem lookup_ids : x.lookup.vidParser = x.parser ∧ x.lookup.fid = x.config.localPid :=
  ⟨x.idParser, (applyRecords_tables x.run).same.localPid⟩

theorem lidsOk : LidsOk x.parser x.vlabel x.size := lidsOk_init x.totalPartitions_lt x.offsets

theorem log_dense : DenseOffsets x.parser (gidsOf x.log) := by
  have hdense := x.dense
  rw [List.map_append, gidsOf_append] at hdense
  exact hdense.of_append

theorem log_deletes : DeletesInserted x.parser x.config.localPid x.log := by
  intro before cmd after hsplit
  refine x.deletes before cmd (after ++ x.later.map Prod.snd) ?_
  have hlog : x.lines.map Prod.snd = before ++ .deleteVertex cmd :: after := hsplit
  rw [List.map_append, hlog]
  simp

theorem use_le_size : x.label.tableView.use ≤ x.size := x.words.1.room

theorem marks : ∃ outer, TableMarks x.parser x.config.localPid x.vlabel x.size x.log x.label.tableView outer := by
  obtain ⟨l0, hl0, hrun⟩ := (applyRecords_tables x.run).label x.vlabel x.label x.hasLabel
  exact @TableMarks.run _ _ _ _ [] _ _ _ _ lidsOk log_dense log_deletes
      (tableMarks_create _ (create_tableView hl0)) hrun
    use_le_size

theorem vertexMap_eq (hnumeric : (x.config.label x.vlabel).externalIdIsString = false)
    (hlocal : x.config.globalVertexMap = false) (oid : Int) :
    x.lookup.vertexMaps x.vlabel oid = firstWith oid x.arrivals := by
  obtain ⟨l0, hl0, hrun⟩ := (applyRecords_oidViews x.run).label x.vlabel x.label x.hasLabel
  have hglobal : (GraphStore.create x.config x.build).globalVertexMap = false := hlocal
  obtain ⟨hmap, hknown, hstring⟩ := create_oidView hl0
  rw [hglobal] at hrun
  have hafter := vertexMap_run (hstring.trans hnumeric) hrun oid
  rw [hmap, hknown, Option.none_or] at hafter
  rw [lookup_label.1]
  exact hafter

theorem gid2Vertex_inner (hmine : x.parser.getFid gid = x.config.localPid)
    (hlabel : x.parser.getLabelId gid = x.vlabel) :
    x.lookup.gid2Vertex gid = some (innerLidOf x.parser x.vlabel gid) := by
  have hbits := @IdParser.numToBitwidth_le x.config.totalPartitions 31 (by decide) (Nat.le_of_lt x.totalPartitions_lt)
  have hlid := @IdParser.getLid_fields x.config.totalPartitions (by omega) gid
  have hlid' : x.parser.getLid gid = innerLidOf x.parser x.vlabel gid := by
    unfold innerLidOf
    rw [← hlabel]
    exact hlid
  unfold VertexLookup.gid2Vertex VertexLookup.innerVertexGid2Vertex
  rw [lookup_ids.1, lookup_ids.2, if_pos hmine, if_pos hmine, hlid']

theorem gid2Vertex_outer (hforeign : x.parser.getFid gid ≠ x.config.localPid)
    (hlabel : x.parser.getLabelId gid = x.vlabel) : x.lookup.gid2Vertex gid = x.label.ovg2l gid := by
  unfold VertexLookup.gid2Vertex VertexLookup.outerVertexGid2Vertex
  rw [lookup_ids.1, lookup_ids.2, if_neg hforeign, hlabel, lookup_label.2]

theorem gid2Vertex_arrival {text : Bytes} (hmem : (gid, text) ∈ x.arrivals) :
    (x.parser.getFid gid = x.config.localPid ∧ gid ∈ arriving x.parser x.config.localPid x.vlabel (gidsOf x.log) ∧
      x.lookup.gid2Vertex gid = some (innerLidOf x.parser x.vlabel gid)) ∨
    (gid ∈ metBy x.parser x.config.localPid x.log ∧ x.parser.getLabelId gid = x.vlabel ∧
      ∃ lid, x.label.ovg2l gid = some lid ∧ x.lookup.gid2Vertex gid = some lid) := by
  rcases arrives_of_mem hmem with hin | ⟨hmet, hlabel⟩
  · obtain ⟨-, hmine, hlabel⟩ := mem_arriving.mp hin
    exact Or.inl ⟨hmine, hin, gid2Vertex_inner hmine hlabel⟩
  · obtain ⟨known, hmarks⟩ := @marks x
    have hknown := (hmarks.maps.met gid).mpr ⟨hmet, hlabel⟩
    obtain ⟨ov, hov⟩ := List.mem_iff_getElem?.mp hknown
    have hlid := (hmarks.maps.known.ovg2l gid _).mpr ⟨ov, hov, rfl⟩
    refine Or.inr ⟨hmet, hlabel, _, hlid, ?_⟩
    rw [gid2Vertex_outer (hmarks.maps.foreign gid hknown) hlabel]
    exact hlid

theorem innerLid_inj {gid' : Nat} (hgid : gid ∈ arriving x.parser x.config.localPid x.vlabel (gidsOf x.log))
    (hgid' : gid' ∈ arriving x.parser x.config.localPid x.vlabel (gidsOf x.log))
    (hlid : innerLidOf x.parser x.vlabel gid = innerLidOf x.parser x.vlabel gid') : gid = gid' := by
  have hoffsets : ((arriving x.parser x.config.localPid x.vlabel (gidsOf x.log)).map x.parser.getOffset).Nodup := by
    rw [log_dense]
    exact List.nodup_range
  have hsame := congrArg x.parser.getOffset hlid
  unfold innerLidOf at hsame
  rw [lidsOk.offset, lidsOk.offset] at hsame
  exact List.inj_on_of_nodup_map hoffsets hgid hgid' hsame

theorem outerLid_inj {known : List Nat} {ov ov' : Nat}
    (h : TableMarks x.parser x.config.localPid x.vlabel x.size x.log x.label.tableView known) (hov : ov < known.length)
    (hov' : ov' < known.length) (hlid : outerLidOf x.parser x.vlabel ov = outerLidOf x.parser x.vlabel ov') : ov =
        ov' := by
  have hcount := h.maps.count
  have huse : x.label.tableView.inner + x.label.tableView.deletedInner +
      (x.label.tableView.outer + x.label.tableView.deletedOuter) ≤ x.size := h.words.room
  exact lidsOk.outer ov (by omega) ov' (by omega) hlid

/-! ### What is not deleted is read -/

theorem reads_inner (hgid : gid ∈ arriving x.parser x.config.localPid x.vlabel (gidsOf x.log))
    (hlive : gid ∉ deletedOf x.log) (hinner : x.innerVertices = some inner) :
    innerLidOf x.parser x.vlabel gid ∈ inner := by
  obtain ⟨known, hmarks⟩ := @marks x
  obtain ⟨-, -, hgrow⟩ := x.words
  have hoffset : x.parser.getOffset gid < x.label.tableView.inner := by
    rw [hmarks.count]
    exact log_dense.lt hgid
  obtain ⟨p, hp, hword⟩ := hmarks.words.inner.present _ hoffset
  have hentry : x.table.vtable.table p = innerLidOf x.parser x.vlabel gid := (hgrow.inner p hp).trans hword
  rw [← hentry]
  refine innerVertices_keeps ?_ hp (fun q hq hmark hnames => ?_) hinner
  · rw [hentry]
    exact lidsOk.small _
  · -- the entry that a marker names is of a deleted vertex
    have hframed := hmarks.innerMarks.frame hgrow.inner fun _ hi => hi
    obtain ⟨q', hq', i, ⟨gid', hgone, hgid', hi⟩, hmarker, hlid⟩ := hframed q hq hmark
    have hmarker' : x.table.vtable.table q = q' + vertexDeleteFlag := hmarker
    have hlid' : x.table.vtable.table q' = x.parser.generateId 0 x.vlabel i := hlid
    rw [hmarker', Nat.add_sub_cancel] at hnames
    rw [hnames, hentry, ← hi] at hlid'
    exact hlive (innerLid_inj hgid hgid' hlid' ▸ hgone)

theorem outerSlots : x.size - (vtableMeta x.label).minOuterLocation =
    x.label.tableView.outer + x.label.tableView.deletedOuter := by
  have hwords := x.words.1
  have huse : x.label.tableView.inner + x.label.tableView.deletedInner +
    (x.label.tableView.outer + x.label.tableView.deletedOuter) ≤ x.size := hwords.room
  have hsize : x.label.vtable.size = x.size := hwords.sameSize
  show x.size - (x.label.vtable.size - (x.label.tableView.outer + x.label.tableView.deletedOuter)) = _
  omega

theorem reads_outer (hlid : x.label.ovg2l gid = some v) (hlive : gid ∉ deletedOf x.log)
    (houter : x.outerVertices = some outer) : v ∈ outer := by
  obtain ⟨known, hmarks⟩ := @marks x
  obtain ⟨-, hwords, hgrow⟩ := x.words
  have hsize : x.table.vtable.size = x.size := hwords.sameSize
  obtain ⟨ov, hov, rfl⟩ := (hmarks.maps.known.ovg2l gid v).mp hlid
  have hlt := (List.getElem?_eq_some_iff.mp hov).1
  have hcount := hmarks.maps.count
  obtain ⟨p, hp, hword⟩ := hmarks.words.outer.present ov (by omega)
  have hentry : x.table.vtable.table (VertexIterator.outerSlot x.size p) = outerLidOf x.parser x.vlabel ov :=
    (hgrow.outer p hp).trans hword
  unfold outerVertices at houter
  rw [hsize] at houter
  rw [← hentry]
  refine outerVertices_keeps ?_ ?_ (fun q hq hmark hnames => ?_) houter
  · rw [hentry]
    exact lidsOk.small _
  · rw [outerSlots]
    exact hp
  · rw [outerSlots] at hq
    have hframed := hmarks.outerMarks.frame hgrow.outer fun _ hi => hi
    obtain ⟨q', hq', ov', ⟨gid', hgone, hov'⟩, hmarker, hlid'⟩ := hframed q hq hmark
    have hlt' := (List.getElem?_eq_some_iff.mp hov').1
    have hmarker' : x.table.vtable.table (VertexIterator.outerSlot x.size q) =
      VertexIterator.outerSlot x.size q' + vertexDeleteFlag := hmarker
    have hlid'' : x.table.vtable.table (VertexIterator.outerSlot x.size q') = outerLidOf x.parser x.vlabel ov' := hlid'
    rw [hmarker', Nat.add_sub_cancel] at hnames
    rw [hnames, hentry] at hlid''
    have hsame := outerLid_inj hmarks hlt hlt' hlid''
    rw [← hsame, hov] at hov'
    exact hlive (Option.some.inj hov' ▸ hgone)

/-! ### What is read is not deleted -/

variable (x) in
/-- No vertex is deleted twice, and no outer vertex before an edge meets it. -/
def DeletedOnce : Prop :=
  ∀ before cmd after, x.log = before ++ .deleteVertex cmd :: after → cmd.vid ∉ deletedOf before ∧
    (x.parser.getFid cmd.vid ≠ x.config.localPid → cmd.vid ∈ metBy x.parser x.config.localPid x.log →
      cmd.vid ∈ metBy x.parser x.config.localPid before)

theorem DeletedOnce.once (h : x.DeletedOnce) : OncePerVertex x.parser x.config.localPid x.log := by
  refine ⟨fun vlabel => ?_, fun before cmd after hsplit => ?_⟩
  · rw [log_dense]
    exact List.nodup_range
  · exact ⟨(h before cmd after hsplit).1, log_deletes before cmd after hsplit, (h before cmd after hsplit).2⟩

theorem DeletedOnce.inv (h : x.DeletedOnce) : ∃ inn out known,
    TableInv x.parser x.config.localPid x.vlabel x.size x.log x.label.tableView inn out known := by
  obtain ⟨l0, hl0, hrun⟩ := (applyRecords_tables x.run).label x.vlabel x.label x.hasLabel
  obtain ⟨inn, out, known, hinv, -, -, -⟩ :=
    (tableInv_create _ (create_tableView hl0) lidsOk).run lidsOk h.once hrun use_le_size
  exact ⟨inn, out, known, hinv⟩

theorem DeletedOnce.inner_live (h : x.DeletedOnce) (hinner : x.innerVertices = some inner) (hv : v ∈ inner) :
    ∃ gid ∈ arriving x.parser x.config.localPid x.vlabel (gidsOf x.log), gid ∉ deletedOf x.log ∧
      v = innerLidOf x.parser x.vlabel gid := by
  obtain ⟨inn, out, known, hinv⟩ := h.inv
  obtain ⟨-, hwords, hgrow⟩ := x.words
  have hsize : x.table.vtable.size = x.size := hwords.sameSize
  have hroom := hinv.room
  have huse := hinv.innerUse
  have hread := @innerVertices_spec x.table.vtable.table (innerLidOf x.parser x.vlabel) inn x.size (vtableMeta x.label)
    (hinv.innerRange.frame fun p hp => hgrow.inner p (by omega)) (by omega) huse
  unfold innerVertices at hinner
  rw [hsize, hread] at hinner
  rw [← Option.some.inj hinner] at hv
  obtain ⟨gid, hgid, rfl⟩ := List.mem_map.mp hv
  obtain ⟨hmem, hlive⟩ := (hinv.innerLog.mem gid).mp hgid
  exact ⟨gid, hmem, hlive, rfl⟩

theorem DeletedOnce.outer_live (h : x.DeletedOnce) (houter : x.outerVertices = some outer) (hv : v ∈ outer) :
    ∃ gid, gid ∉ deletedOf x.log ∧ x.label.ovg2l gid = some v := by
  obtain ⟨inn, out, known, hinv⟩ := h.inv
  obtain ⟨hlabel, hwords, hgrow⟩ := x.words
  have hsize : x.table.vtable.size = x.size := hwords.sameSize
  have hroom := hinv.room
  have huse := hinv.outerUse
  have hslots := @outerSlots x
  have hbound : (vtableMeta x.label).minOuterLocation ≤ x.size := by
    have hlabelSize : x.label.vtable.size = x.size := hlabel.sameSize
    show x.label.vtable.size - _ ≤ _
    omega
  have hread := @outerVertices_spec x.table.vtable.table (outerLidOf x.parser x.vlabel) out x.size (vtableMeta x.label)
    (hinv.outerRange.frame fun p hp => hgrow.outer p (by omega)) (by omega)
  unfold outerVertices at houter
  rw [hsize, hread] at houter
  rw [← Option.some.inj houter] at hv
  obtain ⟨ov, hov, rfl⟩ := List.mem_map.mp hv
  obtain ⟨hlt, hlive⟩ := (hinv.outerLog.mem ov).mp hov
  have hget := List.getElem?_eq_getElem (List.mem_range.mp hlt)
  exact ⟨_, fun hgone => hlive ⟨_, hget, hgone⟩, (hinv.known.ovg2l _ _).mpr ⟨ov, hget, rfl⟩⟩

theorem innerLid_ne_outer {gid' : Nat} (hgid : gid ∈ arriving x.parser x.config.localPid x.vlabel (gidsOf x.log))
    (hlid : x.label.ovg2l gid' = some v) : innerLidOf x.parser x.vlabel gid ≠ v := by
  obtain ⟨known, hmarks⟩ := @marks x
  obtain ⟨ov, hov, rfl⟩ := (hmarks.maps.known.ovg2l gid' v).mp hlid
  have hlt := (List.getElem?_eq_some_iff.mp hov).1
  have hcount : x.label.ovGraph.vertexId = known.length := hmarks.maps.count
  have hoffset : x.parser.getOffset gid < x.label.graph.vertexId := by
    have hinner : x.label.graph.vertexId = _ := hmarks.count
    rw [hinner]
    exact log_dense.lt hgid
  obtain ⟨hinner, -, -⟩ := x.splits.inner hoffset
  obtain ⟨houter, -, -⟩ := x.splits.outer (by rw [hcount]; exact hlt)
  rw [x.idParser] at hinner houter
  intro heq
  rw [← heq] at houter
  exact Bool.noConfusion (hinner.symm.trans houter)

theorem DeletedOnce.live (h : x.DeletedOnce) (hinner : x.innerVertices = some inner)
    (houter : x.outerVertices = some outer) {text : Bytes} (hmem : (gid, text) ∈ x.arrivals)
    (hlid : x.lookup.gid2Vertex gid = some v) (hv : v ∈ inner ∨ v ∈ outer) : gid ∉ deletedOf x.log := by
  obtain ⟨known, hmarks⟩ := @marks x
  rcases gid2Vertex_arrival hmem with ⟨-, hgid, hvertex⟩ | ⟨-, -, lid, hknown, hvertex⟩
  · obtain rfl := Option.some.inj (hvertex.symm.trans hlid)
    rcases hv with hv | hv
    · obtain ⟨gid', hgid', hlive, hsame⟩ := h.inner_live hinner hv
      rw [innerLid_inj hgid hgid' hsame]
      exact hlive
    · obtain ⟨gid', -, hknown'⟩ := h.outer_live houter hv
      exact absurd rfl (innerLid_ne_outer hgid hknown')
  · obtain rfl := Option.some.inj (hvertex.symm.trans hlid)
    rcases hv with hv | hv
    · obtain ⟨gid', hgid', -, hsame⟩ := h.inner_live hinner hv
      exact absurd hsame.symm (innerLid_ne_outer hgid' hknown)
    · obtain ⟨gid', hlive, hknown'⟩ := h.outer_live houter hv
      obtain ⟨ov, hov, hlid'⟩ := (hmarks.maps.known.ovg2l gid lid).mp hknown
      obtain ⟨ov', hov', hlid''⟩ := (hmarks.maps.known.ovg2l gid' lid).mp hknown'
      have hsame := outerLid_inj hmarks (List.getElem?_eq_some_iff.mp hov).1 (List.getElem?_eq_some_iff.mp hov').1
        (hlid'.symm.trans hlid'')
      rw [hsame, hov'] at hov
      rw [← Option.some.inj hov]
      exact hlive

/-! ### The lookup -/

/-- The look up of an external id agrees with the lists of the label when the vertex that was first to come under it
is not deleted; and only then, unless vertices are deleted twice or before they come. -/
theorem getVertex_agrees (x : LabelSnapshot) (hnumeric : (x.config.label x.vlabel).externalIdIsString = false)
    (hlocal : x.config.globalVertexMap = false) (oid : Int) :
    ∃ inner outer, x.innerVertices = some inner ∧ x.outerVertices = some outer ∧
      ((∀ gid, firstWith oid x.arrivals = some gid → gid ∉ deletedOf x.log) → x.Agrees oid inner outer) ∧
      (x.DeletedOnce → x.Agrees oid inner outer →
        ∀ gid, firstWith oid x.arrivals = some gid → gid ∉ deletedOf x.log) := by
  obtain ⟨inner, outer, -, -, hinner, houter, -⟩ := x.lists
  have hmap := vertexMap_eq hnumeric hlocal oid
  refine ⟨inner, outer, hinner, houter, fun hlive => ⟨fun v hv => ?_, ?_⟩, fun honce hagrees gid hfirst => ?_⟩
  · unfold VertexLookup.getVertex at hv
    rw [hmap] at hv
    obtain ⟨gid, hfirst, hvertex⟩ := Option.bind_eq_some_iff.mp hv
    obtain ⟨text, hmem, hoid⟩ := mem_of_firstWith hfirst
    refine ⟨gid, text, hmem, hoid, hvertex, ?_⟩
    rcases gid2Vertex_arrival hmem with ⟨-, hgid, hlid⟩ | ⟨-, -, lid, hknown, hlid⟩
    · rw [← Option.some.inj (hlid.symm.trans hvertex)]
      exact Or.inl (reads_inner hgid (hlive gid hfirst) hinner)
    · rw [← Option.some.inj (hlid.symm.trans hvertex)]
      exact Or.inr (reads_outer hknown (hlive gid hfirst) houter)
  · rintro v ⟨gid, text, hmem, hoid, -, -⟩
    obtain ⟨first, hfirst⟩ := exists_firstWith hmem hoid
    obtain ⟨text', hmem', -⟩ := mem_of_firstWith hfirst
    unfold VertexLookup.getVertex
    rw [hmap, hfirst]
    rcases gid2Vertex_arrival hmem' with ⟨-, -, hlid⟩ | ⟨-, -, lid, -, hlid⟩
    · exact Option.isSome_iff_exists.mpr ⟨_, hlid⟩
    · exact Option.isSome_iff_exists.mpr ⟨_, hlid⟩
  · obtain ⟨text, hmem, hoid⟩ := mem_of_firstWith hfirst
    have hfinds : ∃ v, x.lookup.getVertex x.vlabel oid = some v ∧ x.lookup.gid2Vertex gid = some v := by
      unfold VertexLookup.getVertex
      rw [hmap, hfirst]
      rcases gid2Vertex_arrival hmem with ⟨-, -, hlid⟩ | ⟨-, -, lid, -, hlid⟩
      · exact ⟨_, hlid, hlid⟩
      · exact ⟨_, hlid, hlid⟩
    obtain ⟨v, hv, hvertex⟩ := hfinds
    obtain ⟨-, -, -, -, -, hread⟩ := hagrees.found v hv
    exact honce.live hinner houter hmem hvertex hread

end LabelSnapshot

/-! ### Samples -/

def numbered : StoreConfig :=
  { ofTwo 0 with label := fun vlabel => { (ofTwo 0).label vlabel with externalIdIsString := false } }

theorem exists_lookup {log : List Record} {oid : Int} {inner outer : List Nat} {found : Option Nat}
    (hdense : DenseOffsets (IdParser.init 2) (gidsOf log)) (hdeletes : DeletesInserted (IdParser.init 2) 0 log)
    (hruns : ((initGraphSchema oneRelation).toOption.bind fun sb =>
      ((tableLines log).foldlM GraphStore.applyRecord (GraphStore.create numbered sb)).toOption.bind fun s =>
      (s.labels[0]?).map fun l => (innerVertices (vtableMeta l) l.vtable.table l.vtable.size,
        outerVertices (vtableMeta l) l.vtable.table l.vtable.size, (VertexLookup.ofStore s).getVertex 0 oid,
        decide (l.tableView.use ≤ 8))) = some (some inner, some outer, found, true)) :
    ∃ x : LabelSnapshot, x.config = numbered ∧ x.vlabel = 0 ∧ x.log = log ∧ x.innerVertices = some inner ∧
      x.outerVertices = some outer ∧ x.lookup.getVertex 0 oid = found := by
  obtain ⟨sb, -, hruns⟩ := Option.bind_eq_some_iff.mp hruns
  obtain ⟨s, hs, hruns⟩ := Option.bind_eq_some_iff.mp hruns
  obtain ⟨l, hl, hruns⟩ := Option.map_eq_some_iff.mp hruns
  simp only [Prod.mk.injEq, decide_eq_true_eq] at hruns
  obtain ⟨hinner, houter, hfound, huse⟩ := hruns
  have hnow : (tableLines log).map Prod.snd = log := by
    unfold tableLines
    simp
  have hlog : ((tableLines log ++ []).map Prod.snd) = log := by rw [List.append_nil, hnow]
  exact ⟨{ config := numbered, build := sb, lines := tableLines log, later := [], vlabel := 0, published := s
           current := s, label := l, table := l, totalPartitions_lt := by decide, offsets := by decide
           vlabel_lt := by decide, dense := hlog.symm ▸ hdense, deletes := hlog.symm ▸ hdeletes
           run := ok_of_toOption hs, more := rfl, hasLabel := hl, hasTable := hl, fits := huse },
    rfl, rfl, hnow, hinner, houter, hfound⟩

/-- Two vertices, of which one is deleted, and an edge to an outer one. -/
def numberedLog : List Record :=
  [.addVertex { writeEpoch := 1, vid := 0, externalId := "7", props := [] },
    .addVertex { writeEpoch := 1, vid := 2, externalId := "8", props := [] },
    .addEdge { writeEpoch := 1, elabel := 0, srcVid := 0, dstVid := 1, srcExternalId := "7", dstExternalId := "9"
               eprop := [] },
    .deleteVertex { writeEpoch := 2, vid := 2, externalId := "8", props := [] }]

theorem getVertex_agrees_numbered : ∃ (x : LabelSnapshot) (inner outer : List Nat), x.config = numbered ∧
    x.log = numberedLog ∧ x.innerVertices = some inner ∧ x.outerVertices = some outer ∧ x.Agrees 9 inner outer ∧
    x.lookup.getVertex x.vlabel 9 = some 72057594037927934 := by
  have hdense : DenseOffsets (IdParser.init 2) (gidsOf numberedLog) :=
    @denseOffsets_one (IdParser.init 2) 0 0 (gidsOf numberedLog) (by decide) (by decide)
  have hdeletes : DeletesInserted (IdParser.init 2) 0 numberedLog := by
    intro before cmd after hsplit hmine
    match before, hsplit with
    | [_, _, _], hsplit =>
      cases hsplit
      decide
    | [], hsplit => cases hsplit
    | [_], hsplit => cases hsplit
    | [_, _], hsplit => cases hsplit
    | _ :: _ :: _ :: _ :: before, hsplit => simp [numberedLog] at hsplit
  obtain ⟨x, hconfig, hvlabel, hlog, hinner, houter, hfound⟩ :=
    @exists_lookup numberedLog 9 [0] [72057594037927934] (some 72057594037927934) hdense hdeletes (by decide +kernel)
  have hnumeric : (x.config.label x.vlabel).externalIdIsString = false := by
    rw [hconfig]
    rfl
  have hlocal : x.config.globalVertexMap = false := by
    rw [hconfig]
    rfl
  have hfirst : ∀ gid, firstWith 9 x.arrivals = some gid → gid ∉ deletedOf x.log := by
    have harrivals : x.arrivals = arrivals (IdParser.init 2) 0 0 (fun _ => false) numberedLog := by
      unfold LabelSnapshot.arrivals LabelSnapshot.parser
      rw [hconfig, hvlabel, hlog]
      rfl
    intro gid hgid
    have hgid' : firstWith 9 (arrivals (IdParser.init 2) 0 0 (fun _ => false) numberedLog) = some 1 := by decide +kernel
    rw [harrivals, hgid'] at hgid
    rw [hlog, ← Option.some.inj hgid]
    decide
  obtain ⟨inner, outer, hinner', houter', hagrees, -⟩ := LabelSnapshot.getVertex_agrees x hnumeric hlocal 9
  refine ⟨x, inner, outer, hconfig, hlog, hinner', houter', hagrees hfirst, ?_⟩
  rw [hvlabel]
  exact hfound

def reinserted : List Record :=
  [.addVertex { writeEpoch := 1, vid := 0, externalId := "7", props := [] },
    .deleteVertex { writeEpoch := 2, vid := 0, externalId := "7", props := [] },
    .addVertex { writeEpoch := 3, vid := 2, externalId := "7", props := [] }]

theorem getVertex_reinserted : ∃ x : LabelSnapshot, x.config = numbered ∧ x.log = reinserted ∧
    x.innerVertices = some [2] ∧ x.outerVertices = some [] ∧ x.lookup.getVertex x.vlabel 7 = some 0 ∧
    ¬ x.Agrees 7 [2] [] := by
  have hdense : DenseOffsets (IdParser.init 2) (gidsOf reinserted) :=
    @denseOffsets_one (IdParser.init 2) 0 0 (gidsOf reinserted) (by decide) (by decide)
  have hdeletes : DeletesInserted (IdParser.init 2) 0 reinserted := by
    intro before cmd after hsplit hmine
    match before, hsplit with
    | [_], hsplit =>
      cases hsplit
      decide
    | [], hsplit => cases hsplit
    | [_, _], hsplit => cases hsplit
    | _ :: _ :: _ :: before, hsplit => simp [reinserted] at hsplit
  obtain ⟨x, hconfig, hvlabel, hlog, hinner, houter, hfound⟩ :=
    @exists_lookup reinserted 7 [2] [] (some 0) hdense hdeletes (by decide +kernel)
  have hfound' : x.lookup.getVertex x.vlabel 7 = some 0 := hvlabel.symm ▸ hfound
  refine ⟨x, hconfig, hlog, hinner, houter, hfound', fun hagrees => ?_⟩
  obtain ⟨gid, text, -, -, -, hread⟩ := hagrees.found 0 hfound'
  simp at hread

end Gart.Fragment
