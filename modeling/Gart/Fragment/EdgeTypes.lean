import Mathlib.Data.List.Nodup
import Mathlib.Data.List.Zip
import Gart.Store.GraphStore

/-!
# The edge types between two vertex types

`init_graph_schema` numbers the labels of the mapping and `fill_json` publishes them. `GartFragment::Init` keeps one
edge label for a pair of vertex labels, and GRIN answers from that map.
-/

namespace Gart.Fragment
open Gart.Outcome Gart.Store

/-! ### Numbering the labels (bench_runner.cc) -/

/-- The `type_pair` of an edge type. -/
structure TypePair where
  edge : String
  sourceVertex : String
  destinationVertex : String
  deriving DecidableEq

structure TypeMapping where
  vertexTypes : List String
  edgeTypes : List TypePair
  deriving DecidableEq

inductive TypeFault
  /-- `find` does not find a name or a pair, and `end()` is read -/
  | endRead
  | outOfBounds
  deriving DecidableEq

/-- The labels of `SchemaImpl`, and the map of `init_graph_schema`. -/
structure LabelIds where
  /-- `label_id_map`, in the order of the ids as `fill_json` sorts it -/
  labelIdMap : List (String × Nat) := []
  vertexNameIdMap : String → Option Nat := fun _ => none
  /-- `edge_relation`, from the first edge label on -/
  edgeRelation : List (Nat × Nat) := []
  elabelOffset : Nat := 0
  nextId : Nat := 0

/-- Assignment to an element of `label_id_map`; a new id is larger than all before. -/
def assignLabel (map : List (String × Nat)) (name : String) (id : Nat) : List (String × Nat) :=
  map.filter (fun label => label.1 ≠ name) ++ [(name, id)]

namespace LabelIds

def defineVertex (s : LabelIds) (name : String) : LabelIds :=
  { s with
    vertexNameIdMap := emplace s.vertexNameIdMap name s.nextId
    labelIdMap := assignLabel s.labelIdMap name s.nextId
    nextId := s.nextId + 1 }

def defineEdge (s : LabelIds) (pair : TypePair) : Except TypeFault LabelIds :=
  match s.vertexNameIdMap pair.sourceVertex, s.vertexNameIdMap pair.destinationVertex with
  | some srcLabelId, some dstLabelId =>
    .ok { s with
      labelIdMap := assignLabel s.labelIdMap pair.edge s.nextId
      edgeRelation := s.edgeRelation ++ [(srcLabelId, dstLabelId)]
      nextId := s.nextId + 1 }
  | _, _ => .error .endRead

end LabelIds

/-- The labels in `init_graph_schema`. -/
def initLabels (m : TypeMapping) : Except TypeFault LabelIds :=
  m.edgeTypes.foldlM LabelIds.defineEdge
    (m.vertexTypes.foldl LabelIds.defineVertex { elabelOffset := m.vertexTypes.length })

/-! ### Publishing them (graph_store.cc) -/

inductive TypeKind
  | vertex
  | edge
  deriving DecidableEq

/-- `TypeDef` without its properties; the labels of the ends are those of `rawRelationShips`. -/
structure TypeDef where
  id : Nat
  label : String
  srcVlabel : String
  dstVlabel : String
  type : TypeKind
  deriving DecidableEq

namespace LabelIds

/-- `sj.types.at(id).label`, for a label before. -/
def labelAt (s : LabelIds) (id : Nat) : Except TypeFault String :=
  if s.labelIdMap.length ≤ id then .error .outOfBounds
  else .ok (((s.labelIdMap.find? fun label => label.2 = id).map Prod.fst).getD "")

def fillType (s : LabelIds) (label : String × Nat) : Except TypeFault TypeDef :=
  if s.labelIdMap.length ≤ label.2 then .error .outOfBounds
  else if label.2 < s.elabelOffset then
    .ok { id := label.2, label := label.1, srcVlabel := "", dstVlabel := "", type := .vertex }
  else
    match s.edgeRelation[label.2 - s.elabelOffset]? with
    | none => .error .outOfBounds
    | some pair => do
      let srcVlabel ← s.labelAt pair.1
      let dstVlabel ← s.labelAt pair.2
      return { id := label.2, label := label.1, srcVlabel := srcVlabel, dstVlabel := dstVlabel, type := .edge }

/-- `fill_json` -/
def fillTypes (s : LabelIds) : Except TypeFault (List TypeDef) := s.labelIdMap.mapM s.fillType

end LabelIds

def TypeMapping.publish (m : TypeMapping) : Except TypeFault (List TypeDef) := do
  let s ← initLabels m
  s.fillTypes

/-! ### Reading them (gart_fragment.h, type.cc) -/

/-- What `Init` keeps of the types. -/
structure TypeMaps where
  vertexNameIdMap : String → Option Nat := fun _ => none
  vertex2edgeMap : Nat × Nat → Option Nat := fun _ => none

/-- The round of `Init` for a type. -/
def TypeMaps.addType (vertexLabelNum : Nat) (maps : TypeMaps) (type : TypeDef) : Except TypeFault TypeMaps :=
  match type.type with
  | .vertex => .ok { maps with vertexNameIdMap := emplace maps.vertexNameIdMap type.label type.id }
  | .edge =>
    match maps.vertexNameIdMap type.srcVlabel, maps.vertexNameIdMap type.dstVlabel with
    | some srcId, some dstId =>
      .ok { maps with vertex2edgeMap := emplace maps.vertex2edgeMap (srcId, dstId) (type.id - vertexLabelNum) }
    | _, _ => .error .endRead

/-- `Init`, from the types of the schema (`gart_fragment.h:62-451`). -/
def initTypes (vertexLabelNum : Nat) (types : List TypeDef) : Except TypeFault TypeMaps :=
  types.foldlM (TypeMaps.addType vertexLabelNum) {}

/-- `grin_get_edge_types_by_vertex_type_pair` (`type.cc:189-196`) -/
def grinGetEdgeTypesByVertexTypePair (maps : TypeMaps) (vt1 vt2 : Nat) : Except TypeFault (List Nat) :=
  match maps.vertex2edgeMap (vt1, vt2) with
  | some etype => .ok [etype]
  | none => .error .endRead

/-- All edge types of the mapping from one vertex type to another. -/
def TypeMapping.edgeTypesBetween (m : TypeMapping) (src dst : Nat) : List Nat :=
  (List.range m.edgeTypes.length).filter fun etype =>
    m.edgeTypes[etype]?.any fun pair =>
      m.vertexTypes[src]? = some pair.sourceVertex ∧ m.vertexTypes[dst]? = some pair.destinationVertex

/-! ### Ids of names -/

theorem emplace_apply {κ : Type} [DecidableEq κ] (map : κ → Option Nat) (key k : κ) (value : Nat) :
    emplace map key value k = (map k).or (if k = key then some value else none) := by
  unfold emplace
  by_cases hkey : map key = none
  · rw [if_pos hkey]
    by_cases hk : k = key
    · rw [hk, Function.update_self, if_pos rfl, hkey]
      rfl
    · rw [Function.update_of_ne hk, if_neg hk, Option.or_none]
  · rw [if_neg hkey]
    by_cases hk : k = key
    · obtain ⟨old, hold⟩ := Option.ne_none_iff_exists'.mp hkey
      rw [hk, hold]
      rfl
    · rw [if_neg hk, Option.or_none]

/-- The map has an id for each name, one of those under which the name is listed. -/
structure Indexes (names : List String) (map : String → Option Nat) : Prop where
  known : ∀ name, map name = none → name ∉ names
  listed : ∀ name id, map name = some id → names[id]? = some name

section names
variable {names vertexTypes : List String} {map : String → Option Nat} {name : String}
  {labels : List (String × Nat)} {m : TypeMapping} {s : LabelIds}

theorem indexes_nil : Indexes [] fun _ => none := ⟨by simp, by simp⟩

theorem Indexes.append (h : Indexes names map) (name : String) :
    Indexes (names ++ [name]) (emplace map name names.length) := by
  constructor
  · intro name' hnone
    rw [emplace_apply, Option.or_eq_none_iff] at hnone
    obtain ⟨hold, hnew⟩ := hnone
    have hne : name' ≠ name := fun heq => by simp [heq] at hnew
    simp [h.known name' hold, hne]
  · intro name' id hsome
    rw [emplace_apply] at hsome
    cases hold : map name' with
    | some id' =>
      rw [hold] at hsome
      rw [← Option.some.inj hsome]
      have hlisted := h.listed name' id' hold
      rw [List.getElem?_append_left (List.getElem?_eq_some_iff.mp hlisted).1]
      exact hlisted
    | none =>
      rw [hold, Option.none_or] at hsome
      by_cases hname : name' = name
      · rw [if_pos hname] at hsome
        rw [← Option.some.inj hsome, hname]
        simp
      · rw [if_neg hname] at hsome
        cases hsome

theorem Indexes.exists_of_mem (h : Indexes names map) (hname : name ∈ names) : ∃ id, map name = some id := by
  cases hid : map name with
  | none => exact absurd hname (h.known name hid)
  | some id => exact ⟨id, rfl⟩

theorem getElem?_unique (hnodup : names.Nodup) {i j : Nat} (hi : names[i]? = some name) (hj : names[j]? = some name) :
    i = j := by
  obtain ⟨hilt, hi⟩ := List.getElem?_eq_some_iff.mp hi
  obtain ⟨hjlt, hj⟩ := List.getElem?_eq_some_iff.mp hj
  exact (List.Nodup.getElem_inj_iff hnodup).mp (hi.trans hj.symm)

/-! ### What the store publishes -/

/-- `label_id_map` after all names were assigned: with a name twice it has fewer labels than the last id needs. -/
structure NumberedBy (names : List String) (labels : List (String × Nat)) : Prop where
  keys : ∀ name, name ∈ labels.map Prod.fst ↔ name ∈ names
  length : labels.length ≤ names.length
  distinct : labels.length = names.length → names.Nodup ∧ labels = names.zipIdx
  last : names ≠ [] → ∃ name, (name, names.length - 1) ∈ labels

theorem numberedBy_nil : NumberedBy [] [] := ⟨by simp, Nat.le_refl 0, by simp, by simp⟩

theorem NumberedBy.append (h : NumberedBy names labels) (name : String) :
    NumberedBy (names ++ [name]) (assignLabel labels name names.length) := by
  have hfilter := List.length_filter_le (fun label : String × Nat => decide (label.1 ≠ name)) labels
  have hlength := h.length
  unfold assignLabel
  refine ⟨?_, ?_, ?_, ?_⟩
  · intro name'
    have hkeys := h.keys name'
    rw [List.mem_map] at hkeys
    simp only [List.map_append, List.mem_append, List.mem_map, List.mem_filter, List.map_cons, List.map_nil,
      List.mem_singleton]
    by_cases hname : name' = name
    · simp [hname]
    · rw [← hkeys]
      simp only [hname, or_false]
      constructor
      · rintro ⟨label, ⟨hlabel, -⟩, rfl⟩
        exact ⟨label, hlabel, rfl⟩
      · rintro ⟨label, hlabel, rfl⟩
        exact ⟨label, ⟨hlabel, decide_eq_true hname⟩, rfl⟩
  · simp only [List.length_append, List.length_singleton]
    omega
  · simp only [List.length_append, List.length_singleton]
    intro heq
    obtain ⟨hnodup, hlabels⟩ := h.distinct (by omega)
    have hsame : (labels.filter fun label => decide (label.1 ≠ name)).length = labels.length := by omega
    have hall := List.length_filter_eq_length_iff.mp hsame
    have hnew : name ∉ names := by
      intro hmem
      obtain ⟨label, hlabel, hname⟩ := List.mem_map.mp ((h.keys name).mpr hmem)
      exact of_decide_eq_true (hall label hlabel) hname
    refine ⟨List.nodup_append.mpr ⟨hnodup, by simp, ?_⟩, ?_⟩
    · intro a ha b hb heq
      rw [List.mem_singleton] at hb
      exact hnew (by rw [← hb, ← heq]; exact ha)
    · rw [List.filter_eq_self.mpr hall, List.zipIdx_append, hlabels]
      simp
  · intro _
    exact ⟨name, by simp⟩

def TypeMapping.typeNames (m : TypeMapping) : List String := m.vertexTypes ++ m.edgeTypes.map TypePair.edge

/-- The ids in `pair` are those of the ends of an edge type. -/
def Ends (vertexTypes : List String) (type : TypePair) (pair : Nat × Nat) : Prop :=
  vertexTypes[pair.1]? = some type.sourceVertex ∧ vertexTypes[pair.2]? = some type.destinationVertex

/-- What `init_graph_schema` has after the labels of a mapping. -/
structure Numbered (m : TypeMapping) (s : LabelIds) : Prop where
  nextId : s.nextId = m.typeNames.length
  offset : s.elabelOffset = m.vertexTypes.length
  labels : NumberedBy m.typeNames s.labelIdMap
  vertices : Indexes m.vertexTypes s.vertexNameIdMap
  relation : List.Forall₂ (Ends m.vertexTypes) m.edgeTypes s.edgeRelation

theorem initVertices_spec (vertexTypes : List String) (offset : Nat) :
    let s := vertexTypes.foldl LabelIds.defineVertex { elabelOffset := offset }
    s.nextId = vertexTypes.length ∧ s.elabelOffset = offset ∧ NumberedBy vertexTypes s.labelIdMap ∧
      Indexes vertexTypes s.vertexNameIdMap ∧ s.edgeRelation = [] := by
  induction vertexTypes using List.reverseRecOn with
  | nil => exact ⟨rfl, rfl, numberedBy_nil, indexes_nil, rfl⟩
  | append_singleton vertexTypes name ih =>
    obtain ⟨hnext, hoffset, hlabels, hvertices, hrelation⟩ := ih
    rw [List.foldl_append]
    refine ⟨?_, hoffset, ?_, ?_, hrelation⟩
    · rw [List.length_append, ← hnext]
      rfl
    · have happend := hlabels.append name
      rw [← hnext] at happend
      exact happend
    · have happend := hvertices.append name
      rw [← hnext] at happend
      exact happend

theorem initLabels_spec (h : initLabels m = .ok s) : Numbered m s := by
  obtain ⟨hnext, hoffset, hlabels, hvertices, hrelation⟩ := initVertices_spec m.vertexTypes m.vertexTypes.length
  have hrun := @foldlM_invariant _ _ _ LabelIds.defineEdge
    (fun edges s => Numbered { m with edgeTypes := edges } s) (fun _ => True) [] m.edgeTypes _
    ⟨by simpa [TypeMapping.typeNames] using hnext, hoffset, by
      simpa [TypeMapping.typeNames] using hlabels, hvertices, by
      rw [hrelation]
      exact .nil⟩ ?_
  · exact hrun.of_ok h
  · intro before pair after s _ hs
    unfold LabelIds.defineEdge
    cases hsrc : s.vertexNameIdMap pair.sourceVertex with
    | none => trivial
    | some src =>
      cases hdst : s.vertexNameIdMap pair.destinationVertex with
      | none => trivial
      | some dst =>
        have happend := hs.labels.append pair.edge
        rw [← hs.nextId] at happend
        refine ⟨?_, hs.offset, ?_, hs.vertices, ?_⟩
        · rw [show s.nextId = _ from hs.nextId]
          simp [TypeMapping.typeNames, Nat.add_assoc]
        · simpa [TypeMapping.typeNames] using happend
        · exact List.rel_append hs.relation
            (.cons ⟨hs.vertices.listed _ _ hsrc, hs.vertices.listed _ _ hdst⟩ .nil)

theorem find?_zipIdx (names : List String) (id : Nat) :
    names.zipIdx.find? (fun label => label.2 = id) = names[id]?.map fun name => (name, id) := by
  induction names using List.reverseRecOn with
  | nil => simp
  | append_singleton names name ih =>
    rw [List.zipIdx_append, List.find?_append, ih]
    rcases Nat.lt_trichotomy id names.length with hlt | heq | hgt
    · simp [List.getElem?_append_left hlt, hlt]
    · simp [heq]
    · have hne : names.length ≠ id := by omega
      simp [List.getElem?_append_right (Nat.le_of_lt hgt), hne, List.getElem?_eq_none (Nat.le_of_lt hgt)]
      omega

def vertexDef (label : String × Nat) : TypeDef :=
  { id := label.2, label := label.1, srcVlabel := "", dstVlabel := "", type := .vertex }

def edgeDef (label : TypePair × Nat) : TypeDef :=
  { id := label.2, label := label.1.edge, srcVlabel := label.1.sourceVertex
    dstVlabel := label.1.destinationVertex, type := .edge }

theorem Numbered.distinct {types : List TypeDef} (h : Numbered m s) (hfill : s.fillTypes = .ok types) :
    m.typeNames.Nodup ∧ s.labelIdMap = m.typeNames.zipIdx := by
  have hle := h.labels.length
  by_cases hnil : m.typeNames = []
  · refine h.labels.distinct ?_
    rw [hnil] at hle ⊢
    exact Nat.le_antisymm hle (Nat.zero_le _)
  · obtain ⟨name, hmem⟩ := h.labels.last hnil
    have hpos := List.length_pos_iff.mpr hnil
    obtain ⟨type, htype⟩ := ok_of_mem_of_mapM hfill hmem
    have hlt : ¬ s.labelIdMap.length ≤ m.typeNames.length - 1 := by
      intro hge
      unfold LabelIds.fillType at htype
      rw [if_pos hge] at htype
      cases htype
    exact h.labels.distinct (by omega)

theorem publish_spec {types : List TypeDef} (h : m.publish = .ok types) :
    m.typeNames.Nodup ∧
        (∀ type ∈ m.edgeTypes, type.sourceVertex ∈ m.vertexTypes ∧ type.destinationVertex ∈ m.vertexTypes) ∧
      types = m.vertexTypes.zipIdx.map vertexDef ++ (m.edgeTypes.zipIdx m.vertexTypes.length).map edgeDef := by
  obtain ⟨s, hinit, hfill⟩ := bind_eq_ok h
  have hn := initLabels_spec hinit
  obtain ⟨hnodup, hlabels⟩ := hn.distinct hfill
  have hlength : s.labelIdMap.length = m.vertexTypes.length + m.edgeTypes.length := by
    rw [hlabels, List.length_zipIdx, TypeMapping.typeNames, List.length_append, List.length_map]
  have hlabelAt : ∀ id name, m.vertexTypes[id]? = some name → s.labelAt id = .ok name := by
    intro id name hname
    have hlt := (List.getElem?_eq_some_iff.mp hname).1
    have hall : m.typeNames[id]? = some name := by
      unfold TypeMapping.typeNames
      rw [List.getElem?_append_left hlt, hname]
    unfold LabelIds.labelAt
    rw [if_neg (by omega), hlabels, find?_zipIdx, hall]
    rfl
  have hvertices : ∀ label ∈ m.vertexTypes.zipIdx, s.fillType label = .ok (vertexDef label) := by
    intro label hlabel
    have hlt := (List.getElem?_eq_some_iff.mp (List.mem_zipIdx_iff_getElem?.mp hlabel)).1
    unfold LabelIds.fillType
    rw [if_neg (by omega), hn.offset, if_pos hlt]
    rfl
  have hedges : ∀ label ∈ m.edgeTypes.zipIdx m.vertexTypes.length,
      s.fillType (label.1.edge, label.2) = .ok (edgeDef label) := by
    intro label hlabel
    obtain ⟨hle, htype⟩ := List.mem_zipIdx_iff_le_and_getElem?_sub.mp hlabel
    obtain ⟨hlt, hget⟩ := List.getElem?_eq_some_iff.mp htype
    have hlen := hn.relation.length_eq
    have hends := hn.relation.get hlt (by omega)
    rw [List.get_eq_getElem, List.get_eq_getElem, hget] at hends
    unfold LabelIds.fillType
    dsimp only
    rw [if_neg (by omega), hn.offset, if_neg (by omega), List.getElem?_eq_getElem (by omega)]
    dsimp only
    rw [hlabelAt _ _ hends.1, hlabelAt _ _ hends.2]
    rfl
  refine ⟨hnodup, ?_, ?_⟩
  · intro type htype
    obtain ⟨i, hi, rfl⟩ := List.getElem_of_mem htype
    have hends := hn.relation.get hi (hn.relation.length_eq ▸ hi)
    exact ⟨List.mem_of_getElem? hends.1, List.mem_of_getElem? hends.2⟩
  · have hall : s.fillTypes = .ok (m.vertexTypes.zipIdx.map vertexDef ++
        (m.edgeTypes.zipIdx m.vertexTypes.length).map edgeDef) := by
      unfold LabelIds.fillTypes
      rw [hlabels, TypeMapping.typeNames, List.zipIdx_append, List.zipIdx_map, List.mapM_append, mapM_eq_map hvertices,
        List.mapM_map, Nat.zero_add]
      rw [show (m.edgeTypes.zipIdx m.vertexTypes.length).mapM (s.fillType ∘ Prod.map TypePair.edge id) = _ from
        mapM_eq_map hedges]
      rfl
    exact Except.ok.inj (hfill.symm.trans hall)

/-! ### What the fragment keeps -/

theorem edgeTypesBetween_append (m : TypeMapping) (type : TypePair) (src dst : Nat) :
    ({ m with edgeTypes := m.edgeTypes ++ [type] } : TypeMapping).edgeTypesBetween src dst =
      m.edgeTypesBetween src dst ++
        if m.vertexTypes[src]? = some type.sourceVertex ∧ m.vertexTypes[dst]? = some type.destinationVertex then
          [m.edgeTypes.length]
        else [] := by
  unfold TypeMapping.edgeTypesBetween
  rw [List.length_append, List.length_singleton, List.range_succ, List.filter_append]
  congr 1
  · apply List.filter_congr
    intro etype hetype
    rw [List.getElem?_append_left (List.mem_range.mp hetype)]
  · by_cases hends : m.vertexTypes[src]? = some type.sourceVertex ∧ m.vertexTypes[dst]? = some type.destinationVertex
    · rw [if_pos hends]
      simp [hends]
    · rw [if_neg hends]
      simpa using hends

theorem addVertices_spec (vertexTypes : List String) (vertexLabelNum : Nat) :
    ∃ maps, (vertexTypes.zipIdx.map vertexDef).foldlM (TypeMaps.addType vertexLabelNum) {} = .ok maps ∧
      Indexes vertexTypes maps.vertexNameIdMap ∧ maps.vertex2edgeMap = fun _ => none := by
  induction vertexTypes using List.reverseRecOn with
  | nil => exact ⟨{}, rfl, indexes_nil, rfl⟩
  | append_singleton vertexTypes name ih =>
    obtain ⟨maps, hmaps, hnames, hedges⟩ := ih
    rw [List.zipIdx_append, List.map_append, List.foldlM_append, hmaps]
    refine ⟨_, rfl, ?_, hedges⟩
    rw [Nat.zero_add]
    exact hnames.append name

theorem addEdges_spec {maps : TypeMaps} {vertexTypes : List String} (hnodup : vertexTypes.Nodup)
    (hnames : Indexes vertexTypes maps.vertexNameIdMap) (hempty : maps.vertex2edgeMap = fun _ => none)
    (edgeTypes : List TypePair)
    (hends : ∀ type ∈ edgeTypes, type.sourceVertex ∈ vertexTypes ∧ type.destinationVertex ∈ vertexTypes) :
    ∃ maps', ((edgeTypes.zipIdx vertexTypes.length).map edgeDef).foldlM (TypeMaps.addType vertexTypes.length) maps =
        .ok maps' ∧ maps'.vertexNameIdMap = maps.vertexNameIdMap ∧
      ∀ src dst,
          maps'.vertex2edgeMap (src, dst) = (TypeMapping.edgeTypesBetween ⟨vertexTypes, edgeTypes⟩ src dst).head? := by
  induction edgeTypes using List.reverseRecOn with
  | nil => exact ⟨maps, rfl, rfl, fun src dst => by rw [hempty]; rfl⟩
  | append_singleton edgeTypes type ih =>
    obtain ⟨maps', hmaps, hsame, hedges⟩ := ih fun t ht => hends t (List.mem_append_left _ ht)
    obtain ⟨hsource, hdestination⟩ := hends type (List.mem_append_right _ (List.mem_singleton_self _))
    obtain ⟨srcId, hsrcId⟩ := hnames.exists_of_mem hsource
    obtain ⟨dstId, hdstId⟩ := hnames.exists_of_mem hdestination
    have hadd : maps'.addType vertexTypes.length (edgeDef (type, vertexTypes.length + edgeTypes.length)) =
        .ok { maps' with vertex2edgeMap := emplace maps'.vertex2edgeMap (srcId, dstId) edgeTypes.length } := by
      unfold TypeMaps.addType edgeDef
      dsimp only
      rw [hsame, hsrcId, hdstId, Nat.add_sub_cancel_left]
    rw [List.zipIdx_append, List.map_append, List.foldlM_append, hmaps]
    refine ⟨{ maps' with vertex2edgeMap := emplace maps'.vertex2edgeMap (srcId, dstId) edgeTypes.length }, ?_, hsame,
      fun src dst => ?_⟩
    · show (maps'.addType vertexTypes.length (edgeDef (type, vertexTypes.length + edgeTypes.length)) >>= _) = _
      rw [hadd]
      rfl
    have hsrc : vertexTypes[src]? = some type.sourceVertex ↔ src = srcId :=
      ⟨fun h => getElem?_unique hnodup h (hnames.listed _ _ hsrcId), fun h => h ▸ hnames.listed _ _ hsrcId⟩
    have hdst : vertexTypes[dst]? = some type.destinationVertex ↔ dst = dstId :=
      ⟨fun h => getElem?_unique hnodup h (hnames.listed _ _ hdstId), fun h => h ▸ hnames.listed _ _ hdstId⟩
    have happend := edgeTypesBetween_append ⟨vertexTypes, edgeTypes⟩ type src dst
    dsimp only at happend ⊢
    rw [happend, emplace_apply, hedges, List.head?_append]
    simp only [hsrc, hdst, Prod.mk.injEq]
    split <;> rfl

theorem initTypes_spec {types : List TypeDef} (h : m.publish = .ok types) :
    ∃ maps, initTypes m.vertexTypes.length types = .ok maps ∧
      ∀ src dst, maps.vertex2edgeMap (src, dst) = (m.edgeTypesBetween src dst).head? := by
  obtain ⟨hnodup, hends, htypes⟩ := publish_spec h
  obtain ⟨maps, hmaps, hnames, hempty⟩ := addVertices_spec m.vertexTypes m.vertexTypes.length
  obtain ⟨maps', hmaps', -, hedges⟩ :=
    addEdges_spec (List.nodup_append.mp hnodup).1 hnames hempty m.edgeTypes hends
  refine ⟨maps', ?_, hedges⟩
  unfold initTypes
  rw [htypes, List.foldlM_append, hmaps]
  exact hmaps'

/-- In the fragment of every schema that the store publishes, and for every pair of vertex types: the function
returns the list of all edge types from the one to the other exactly if there is just one. -/
theorem edgeTypesOfPair_iff {types : List TypeDef} (h : m.publish = .ok types) :
    ∃ maps, initTypes m.vertexTypes.length types = .ok maps ∧ ∀ src dst,
      (grinGetEdgeTypesByVertexTypePair maps src dst = .ok (m.edgeTypesBetween src dst) ↔
        (m.edgeTypesBetween src dst).length = 1) := by
  obtain ⟨maps, hmaps, hedges⟩ := initTypes_spec h
  refine ⟨maps, hmaps, fun src dst => ?_⟩
  unfold grinGetEdgeTypesByVertexTypePair
  rw [hedges]
  cases m.edgeTypesBetween src dst with
  | nil => simp
  | cons etype more => simp [eq_comm]

end names

/-- Two kinds of edges from persons to posts, one from posts to persons, and none between persons. -/
def persons : TypeMapping :=
  { vertexTypes := ["person", "post"]
    edgeTypes := [⟨"likes", "person", "post"⟩, ⟨"hasCreator", "post", "person"⟩, ⟨"shares", "person", "post"⟩] }

def personTypes : List TypeDef :=
  [vertexDef ("person", 0), vertexDef ("post", 1), edgeDef (⟨"likes", "person", "post"⟩, 2),
    edgeDef (⟨"hasCreator", "post", "person"⟩, 3), edgeDef (⟨"shares", "person", "post"⟩, 4)]

theorem edgeTypesOfPair_iff_persons : ∃ maps, initTypes 2 personTypes = .ok maps ∧ ∀ src dst,
    (grinGetEdgeTypesByVertexTypePair maps src dst = .ok (persons.edgeTypesBetween src dst) ↔
      (persons.edgeTypesBetween src dst).length = 1) :=
  @edgeTypesOfPair_iff persons personTypes (ok_of_toOption (by decide))

/-- Persons to posts: the list has the first edge type alone. Persons to persons: the end of the map is read. -/
theorem edgeTypesOfPair_parallel : persons.publish.toOption = some personTypes ∧
    ((initTypes 2 personTypes).toOption.map fun maps =>
      ((grinGetEdgeTypesByVertexTypePair maps 0 1).toOption, (grinGetEdgeTypesByVertexTypePair maps 0 0).toOption)) =
        some (some [0], none) ∧
    persons.edgeTypesBetween 0 1 = [0, 2] ∧ persons.edgeTypesBetween 0 0 = [] := by
  decide

end Gart.Fragment
