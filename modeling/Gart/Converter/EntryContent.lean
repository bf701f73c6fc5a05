import Gart.Converter.Expansion
import Mathlib.Data.List.Forall2

/-!
# What the entries of an event carry

The ids and the properties that `fill_vertex`, `fill_edge` and `fill_prop` take from the row of an
event, and the loop of `process_binlog_step_1` with its counter. The Debezium build fills the two halves
of an update from the row before and the row after it, the Maxwell build fills both from the row after it.
-/

namespace Gart.Converter
open Gart.Outcome

/-! ### Rows -/

namespace Json

/-- A column of a row; a row without it has null. -/
def member : Json → String → Json
  | .object members, name => (members.lookup name).getD .null
  | _, _ => .null

/-- `fill_prop` has a text for the value. -/
def hasText : Json → Bool
  | .boolean _ | .array _ | .object _ => false
  | _ => true

def isRow : Json → Bool
  | .object _ | .null => true
  | _ => false

end Json

def Readable (build : Build) (row : Json) (names : List String) : Prop :=
  ∀ name ∈ names, column build row name = .ok (row.member name)

section rows
variable {row : Json} {names : List String} {members : List (String × Json)}

theorem readable_debezium (h : row.isRow = true) : Readable .debezium row names := by
  intro name _
  cases row with
  | object members => rfl
  | null => rfl
  | _ => cases h

theorem readable_maxwell (h : ∀ name ∈ names, (members.lookup name).isSome) :
    Readable .maxwell (.object members) names := by
  intro name hname
  obtain ⟨value, hvalue⟩ := Option.isSome_iff_exists.mp (h name hname)
  unfold column Json.constIndex Json.member
  dsimp only
  rw [hvalue]
  rfl

theorem length_propertyText (value : Json) : (propertyText value).length = if value.hasText then 1 else 0 := by
  cases value <;> rfl

theorem propertyText_of_hasText {value : Json} (h : value.hasText = true) : ∃ text, propertyText value = [text] := by
  cases value with
  | boolean | array | object => cases h
  | _ => exact ⟨_, rfl⟩

theorem mapM_of_readable {build : Build} (h : Readable build row names) :
    names.mapM (column build row) = .ok (names.map row.member) := by
  obtain ⟨values, hrun, hall⟩ := mapM_of_ok (f := column build row) (R := fun name value => value = row.member name)
    fun name hname => ⟨_, h name hname, rfl⟩
  have heq : values = names.map row.member := by
    have hsame : List.Forall₂ (· = ·) values (names.map row.member) := by
      rw [List.forall₂_map_right_iff]
      exact hall.flip
    rw [List.forall₂_eq_eq_eq] at hsame
    exact hsame
  rw [hrun, heq]

end rows

/-! ### One property for each column -/

section aligned
variable {values : List Json}

theorem length_flatMap_propertyText : (values.flatMap propertyText).length = values.countP Json.hasText := by
  induction values with
  | nil => rfl
  | cons value values ih =>
    rw [List.flatMap_cons, List.length_append, List.countP_cons, ih, length_propertyText, Nat.add_comm]

theorem length_texts_iff :
    (values.flatMap propertyText).length = values.length ↔ ∀ value ∈ values, value.hasText = true := by
  rw [length_flatMap_propertyText]
  exact List.countP_eq_length

theorem forall₂_texts (h : ∀ value ∈ values, value.hasText = true) :
    List.Forall₂ (fun value text => propertyText value = [text]) values (values.flatMap propertyText) := by
  induction values with
  | nil => exact .nil
  | cons value values ih =>
    obtain ⟨text, htext⟩ := propertyText_of_hasText (h value List.mem_cons_self)
    rw [List.flatMap_cons, htext]
    exact .cons htext (ih fun v hv => h v (List.mem_cons_of_mem _ hv))

end aligned

/-- `fill_prop` gives each required column its text, in their order. -/
structure Aligned (cfg : ParserConfig) (label : String) (log : Json) (out e : LogEntry) : Prop where
  filled : fillProp cfg label log out = .ok e
  length : e.properties.length = (cfg.mapping.requiredProperties label).length
  inOrder : ∃ row, rowOf cfg.build out.opType log = .ok row ∧
    List.Forall₂ (fun name text => ∃ value, column cfg.build row name = .ok value ∧ propertyText value = [text])
      (cfg.mapping.requiredProperties label) e.properties

/-- Every required column of the row is there, with a value of a type that `fill_prop` has a text for. -/
def TextColumns (cfg : ParserConfig) (label : String) (log : Json) (out : LogEntry) : Prop :=
  ∃ row, rowOf cfg.build out.opType log = .ok row ∧ ∀ name ∈ cfg.mapping.requiredProperties label,
    ∃ value, column cfg.build row name = .ok value ∧ value.hasText = true

theorem fillProp_values {cfg : ParserConfig} {label : String} {log : Json} {out e : LogEntry}
    (h : fillProp cfg label log out = .ok e) : ∃ row values, rowOf cfg.build out.opType log = .ok row ∧
      List.Forall₂ (fun name value => column cfg.build row name = .ok value)
          (cfg.mapping.requiredProperties label) values ∧
      e.properties = values.flatMap propertyText := by
  unfold fillProp at h
  obtain ⟨row, hrow, h⟩ := bind_eq_ok h
  obtain ⟨values, hvalues, h⟩ := bind_eq_ok h
  cases h
  exact ⟨row, values, hrow, forall₂_of_mapM hvalues, rfl⟩

/-- The properties have an element for each required column, in their order, if and only if no required column has a
boolean, an array or an object (or is missing where a missing column cannot be read). The number of elements tells. -/
theorem fillProp_aligned_iff (cfg : ParserConfig) (label : String) (log : Json) (out : LogEntry) :
    ((∃ e, Aligned cfg label log out e) ↔ TextColumns cfg label log out) ∧
      ∀ e, fillProp cfg label log out = .ok e →
        (e.properties.length = (cfg.mapping.requiredProperties label).length ↔ TextColumns cfg label log out) := by
  have hcount : ∀ e, fillProp cfg label log out = .ok e →
      e.properties.length = (cfg.mapping.requiredProperties label).length → TextColumns cfg label log out := by
    intro e he hlength
    obtain ⟨row, values, hrow, hvalues, hproperties⟩ := fillProp_values he
    rw [hproperties, hvalues.length_eq, length_texts_iff] at hlength
    refine ⟨row, hrow, fun name hname => ?_⟩
    obtain ⟨i, hi⟩ := List.mem_iff_getElem?.mp hname
    obtain ⟨hlen, hget⟩ := List.forall₂_iff_get.mp hvalues
    obtain ⟨hlt, rfl⟩ := List.getElem?_eq_some_iff.mp hi
    exact ⟨_, hget i hlt (by omega), hlength _ (List.getElem_mem _)⟩
  have haligned : TextColumns cfg label log out → ∃ e, Aligned cfg label log out e := by
    rintro ⟨row, hrow, hcolumns⟩
    obtain ⟨values, hrun, hvalues⟩ := mapM_of_ok (f := column cfg.build row)
      (R := fun name value => column cfg.build row name = .ok value ∧ value.hasText = true) fun name hname => by
        obtain ⟨value, hvalue, htext⟩ := hcolumns name hname
        exact ⟨value, hvalue, hvalue, htext⟩
    have htexts : ∀ value ∈ values, value.hasText = true := by
      intro value hvalue
      obtain ⟨i, hi⟩ := List.mem_iff_getElem?.mp hvalue
      obtain ⟨hlen, hget⟩ := List.forall₂_iff_get.mp hvalues
      obtain ⟨hlt, rfl⟩ := List.getElem?_eq_some_iff.mp hi
      exact (hget i (by omega) hlt).2
    have hfill : fillProp cfg label log out = .ok { out with properties := values.flatMap propertyText } := by
      unfold fillProp
      rw [hrow]
      show ((cfg.mapping.requiredProperties label).mapM (column cfg.build row) >>= fun values => pure _) = _
      rw [hrun]
      rfl
    refine ⟨_, hfill, ?_, row, hrow, ?_⟩
    · show (values.flatMap propertyText).length = _
      rw [length_texts_iff.mpr htexts, hvalues.length_eq]
    · have hcolumn : List.Forall₂ (fun name value => column cfg.build row name = .ok value)
          (cfg.mapping.requiredProperties label) values := hvalues.imp fun _ _ h => h.1
      have htext := forall₂_texts htexts
      clear hrun hvalues hfill htexts hcolumns
      show List.Forall₂ _ _ (values.flatMap propertyText)
      generalize values.flatMap propertyText = texts at htext
      generalize cfg.mapping.requiredProperties label = names at hcolumn
      induction hcolumn generalizing texts with
      | nil =>
        cases htext
        exact .nil
      | cons hname _ ih =>
        cases htext with
        | cons hone hrest => exact .cons ⟨_, hname, hone⟩ (ih _ hrest)
  refine ⟨⟨fun ⟨e, he⟩ => hcount e he.filled he.length, haligned⟩, fun e he => ⟨hcount e he, fun h => ?_⟩⟩
  obtain ⟨e', he'⟩ := haligned h
  have hsame := he'.filled
  rw [he] at hsame
  rw [Except.ok.inj hsame]
  exact he'.length

def flagMapping : ParserConfig :=
  { build := .debezium
    mapping := {
      vertexTypes :=
        [{ dataSourceName := "user", typeName := "user", idFieldName := "id", mappings := ["flag", "name"] }]
      edgeTypes := []
      known := by simp }
    subgraphNum := 1 }

/-- For a row with the flag true the name stands where the flag should. -/
theorem fillProp_boolean : ∃ e, fillProp flagMapping "user"
    (.object [("after", .object [("id", .integer 7), ("flag", .boolean true), ("name", .string "x")])])
    { opType := .insert } = .ok e ∧ flagMapping.mapping.requiredProperties "user" = ["flag", "name"] ∧
      e.properties = ["x"] := by
  refine ⟨_, rfl, rfl, rfl⟩

/-! ### The ids of an entry -/

theorem fst_of_mem_labelSlots {cfg : ParserConfig} {h : Header} {label : String} {slot : Slot}
    (hslot : slot ∈ labelSlots cfg h label) : slot.1 = label := by
  unfold labelSlots at hslot
  split at hslot
  · rcases List.mem_cons.mp hslot with rfl | hslot
    · rfl
    · rw [List.mem_singleton.mp hslot]
  · rw [List.mem_singleton.mp hslot]

/-- The ids of the two vertices of an edge in a row, unless one is null. -/
def endpoints (row : Json) (t : EdgeType) : Option ((String × Bool) × (String × Bool)) :=
  let src := row.member (RgMapping.edgeColumns t).1
  let dst := row.member (RgMapping.edgeColumns t).2
  if src.isNull || dst.isNull then none else some (externalIdOf src, externalIdOf dst)

/-- The entry has these ids, or is incomplete if there are none. -/
def LogEntry.Carries (e : LogEntry) : Option ((String × Bool) × (String × Bool)) → Prop
  | none => e.complete = false
  | some (src, dst) => e.complete = true ∧ (e.srcExternalId, e.isSrcStringOid) = src ∧
      (e.dstExternalId, e.isDstStringOid) = dst

theorem LogEntry.Carries.eq {e : LogEntry} {a b : Option ((String × Bool) × (String × Bool))} (ha : e.Carries a)
    (hb : e.Carries b) : a = b := by
  match a, b with
  | none, none => rfl
  | none, some (src, dst) => exact absurd (ha.symm.trans hb.1) (by decide)
  | some (src, dst), none => exact absurd (hb.symm.trans ha.1) (by decide)
  | some (src, dst), some (src', dst') =>
    obtain ⟨-, hsrc, hdst⟩ := ha
    obtain ⟨-, hsrc', hdst'⟩ := hb
    rw [← hsrc, ← hdst, hsrc', hdst']

theorem LogEntry.Carries.congr {e e' : LogEntry} {ids : Option ((String × Bool) × (String × Bool))} (h : e.Carries ids)
    (hcomplete : e'.complete = e.complete)
    (hsrc : (e'.srcExternalId, e'.isSrcStringOid) = (e.srcExternalId, e.isSrcStringOid))
    (hdst : (e'.dstExternalId, e'.isDstStringOid) = (e.dstExternalId, e.isDstStringOid)) : e'.Carries ids := by
  cases ids with
  | none => exact hcomplete.trans h
  | some ends =>
    obtain ⟨hdone, hsrc', hdst'⟩ := h
    exact ⟨hcomplete.trans hdone, hsrc.trans hsrc', hdst.trans hdst'⟩

def propertyTexts (cfg : ParserConfig) (label : String) (row : Json) : List String :=
  (cfg.mapping.requiredProperties label).flatMap fun name => propertyText (row.member name)

def columnsOf (cfg : ParserConfig) (label : String) : List String :=
  (cfg.mapping.vertexIdColumn label).toList ++
    ((cfg.mapping.edgeType label).map fun t => [(RgMapping.edgeColumns t).1, (RgMapping.edgeColumns t).2]).getD [] ++
    cfg.mapping.requiredProperties label

structure Content (cfg : ParserConfig) (row : Json) (slot : Slot) (e : LogEntry) : Prop where
  vertex : cfg.mapping.isVertexLabel slot.1 = true → e.complete = true ∧ e.vlabel = cfg.mapping.vertexLabelId slot.1 ∧
    ∃ idColumn, cfg.mapping.vertexIdColumn slot.1 = some idColumn ∧
      (e.externalId, e.isStringOid) = externalIdOf (row.member idColumn)
  edge : cfg.mapping.isVertexLabel slot.1 = false → ∃ t, cfg.mapping.edgeType slot.1 = some t ∧
    e.elabel = cfg.mapping.elabelId slot.1 ∧ e.srcVlabel = (cfg.mapping.edgeEndLabels t).1 ∧
      e.dstVlabel = (cfg.mapping.edgeEndLabels t).2 ∧ e.Carries (endpoints row t)
  properties : e.complete = true → e.properties = if slot.2 = .delete then [] else propertyTexts cfg slot.1 row

section fill
variable {cfg : ParserConfig} {h : Header} {log row : Json} {label table : String} {out : LogEntry}

theorem label_known (h : label ∈ cfg.mapping.labelNames table) :
    (cfg.mapping.isVertexLabel label = true → ∃ idColumn, cfg.mapping.vertexIdColumn label = some idColumn) ∧
      (cfg.mapping.isVertexLabel label = false → ∃ t, cfg.mapping.edgeType label = some t) := by
  constructor
  · intro hvertex
    have hmem : label ∈ cfg.mapping.vertexTypes.map VertexType.typeName := of_decide_eq_true hvertex
    obtain ⟨v, hv, hname⟩ := List.mem_map.mp hmem
    have hfind : (cfg.mapping.vertexTypes.find? fun v => v.typeName = label).isSome :=
      List.find?_isSome.mpr ⟨v, hv, decide_eq_true hname⟩
    obtain ⟨v', hv'⟩ := Option.isSome_iff_exists.mp hfind
    refine ⟨toLowerCase v'.idFieldName, ?_⟩
    unfold RgMapping.vertexIdColumn
    rw [hv']
    rfl
  · intro hedge
    have hnot : label ∉ cfg.mapping.vertexTypes.map VertexType.typeName := of_decide_eq_false hedge
    unfold RgMapping.labelNames at h
    rcases List.mem_append.mp h with hv | he
    · obtain ⟨v, hv, hname⟩ := List.mem_map.mp hv
      exact absurd (List.mem_map.mpr ⟨v, List.mem_of_mem_filter hv, hname⟩) hnot
    · obtain ⟨t, ht, hname⟩ := List.mem_map.mp he
      have hfind : (cfg.mapping.edgeTypes.find? fun t => t.edge = label).isSome :=
        List.find?_isSome.mpr ⟨t, List.mem_of_mem_filter ht, decide_eq_true hname⟩
      exact Option.isSome_iff_exists.mp hfind

theorem fillVertex_content {idColumn : String} (hrow : rowOf cfg.build out.opType log = .ok row)
    (hid : cfg.mapping.vertexIdColumn label = some idColumn) (hread : Readable cfg.build row (columnsOf cfg label)) :
    fillVertex cfg label log out = .ok { out with
      vlabel := cfg.mapping.vertexLabelId label
      externalId := (externalIdOf (row.member idColumn)).1
      isStringOid := (externalIdOf (row.member idColumn)).2 } := by
  have hcolumn : column cfg.build row idColumn = .ok (row.member idColumn) := by
    apply hread
    unfold columnsOf
    rw [hid]
    exact List.mem_append_left _ (List.mem_append_left _ List.mem_cons_self)
  unfold fillVertex
  rw [hrow]
  dsimp only [bind, Except.bind]
  rw [hid]
  dsimp only
  rw [hcolumn]
  rfl

theorem fillEdge_content {t : EdgeType} (hrow : rowOf cfg.build out.opType log = .ok row)
    (ht : cfg.mapping.edgeType label = some t) (hread : Readable cfg.build row (columnsOf cfg label))
    (hcomplete : out.complete = true) :
    ∃ e, fillEdge cfg label log out = .ok e ∧ e.elabel = cfg.mapping.elabelId label ∧
      e.srcVlabel = (cfg.mapping.edgeEndLabels t).1 ∧ e.dstVlabel = (cfg.mapping.edgeEndLabels t).2 ∧
      e.Carries (endpoints row t) ∧ e.opType = out.opType ∧ e.properties = out.properties := by
  have hcolumn : ∀ name, name = (RgMapping.edgeColumns t).1 ∨ name = (RgMapping.edgeColumns t).2 →
      column cfg.build row name = .ok (row.member name) := by
    intro name hname
    apply hread
    unfold columnsOf
    rw [ht]
    refine List.mem_append_left _ (List.mem_append_right _ ?_)
    rcases hname with rfl | rfl
    · exact List.mem_cons_self
    · exact List.mem_cons_of_mem _ List.mem_cons_self
  unfold fillEdge endpoints
  rw [hrow]
  dsimp only [bind, Except.bind]
  rw [ht]
  dsimp only
  rw [hcolumn _ (Or.inl rfl), hcolumn _ (Or.inr rfl)]
  dsimp only
  cases hsrc : (row.member (RgMapping.edgeColumns t).1).isNull with
  | true => exact ⟨_, rfl, rfl, rfl, rfl, rfl, rfl, rfl⟩
  | false =>
    cases hdst : (row.member (RgMapping.edgeColumns t).2).isNull with
    | true => exact ⟨_, rfl, rfl, rfl, rfl, rfl, rfl, rfl⟩
    | false => exact ⟨_, rfl, rfl, rfl, rfl, ⟨hcomplete, rfl, rfl⟩, rfl, rfl⟩

theorem fillProp_content (hrow : rowOf cfg.build out.opType log = .ok row)
    (hread : Readable cfg.build row (columnsOf cfg label)) :
    fillProp cfg label log out = .ok { out with properties := propertyTexts cfg label row } := by
  have hvalues : (cfg.mapping.requiredProperties label).mapM (column cfg.build row) =
      .ok ((cfg.mapping.requiredProperties label).map row.member) :=
    mapM_of_readable fun name hname => hread name (List.mem_append_right _ hname)
  unfold fillProp propertyTexts
  rw [hrow]
  show ((cfg.mapping.requiredProperties label).mapM (column cfg.build row) >>= fun values => pure _) = _
  rw [hvalues, ← List.flatMap_map]
  rfl

theorem fillEntry_content (hcomplete : out.complete = true) (hproperties : out.properties = [])
    (hlabel : label ∈ cfg.mapping.labelNames table)
    (hrow : rowOf cfg.build (nextSlot cfg h label out.updateHasFinishDelete).2 log = .ok row)
    (hread : Readable cfg.build row (columnsOf cfg label)) :
    ∃ e, fillEntry cfg h label log out = .ok e ∧
      Content cfg row (nextSlot cfg h label out.updateHasFinishDelete) e := by
  have hname : (nextSlot cfg h label out.updateHasFinishDelete).1 = label := rfl
  generalize hslot : nextSlot cfg h label out.updateHasFinishDelete = slot at hrow hname ⊢
  -- what is left after the ids are filled in
  have hprop : ∀ e : LogEntry, e.opType = slot.2 → e.properties = [] →
      ∃ properties, (if e.opType ≠ .delete ∧ e.complete = true then fillProp cfg label log e else pure e) =
        .ok { e with properties := properties } ∧
        (e.complete = true → properties = if slot.2 = .delete then [] else propertyTexts cfg slot.1 row) := by
    intro e hop hnone
    by_cases hfill : e.opType ≠ .delete ∧ e.complete = true
    · rw [if_pos hfill, fillProp_content (by rw [hop]; exact hrow) hread]
      refine ⟨_, rfl, fun _ => ?_⟩
      rw [hop] at hfill
      rw [if_neg hfill.1, hname]
    · rw [if_neg hfill]
      refine ⟨[], by rw [← hnone]; rfl, fun hdone => ?_⟩
      have hdelete : slot.2 = .delete := by
        rw [← hop]
        exact not_not.mp fun hne => hfill ⟨hne, hdone⟩
      rw [if_pos hdelete]
  unfold fillEntry
  dsimp only
  rw [@splitUpdate_eq cfg h label _ rfl rfl]
  dsimp only
  rw [hslot]
  obtain ⟨hvertexKnown, hedgeKnown⟩ := label_known hlabel
  cases hvertex : cfg.mapping.isVertexLabel label with
  | true =>
    obtain ⟨idColumn, hid⟩ := hvertexKnown hvertex
    simp only [if_true]
    rw [fillVertex_content hrow hid hread]
    dsimp only [bind, Except.bind]
    obtain ⟨properties, hrun, htexts⟩ := hprop { out with
      entityType := .vertex, opType := slot.2, txId := h.txId, snapshot := h.snapshot
      updateHasFinishDelete := if twoStep cfg h label then !out.updateHasFinishDelete else out.updateHasFinishDelete
      vlabel := cfg.mapping.vertexLabelId label
      externalId := (externalIdOf (row.member idColumn)).1
      isStringOid := (externalIdOf (row.member idColumn)).2 } rfl hproperties
    refine ⟨_, hrun, fun _ => ⟨hcomplete, by rw [hname], idColumn, by rw [hname]; exact hid, rfl⟩, ?_, htexts⟩
    intro hedge
    rw [hname, hvertex] at hedge
    cases hedge
  | false =>
    obtain ⟨t, ht⟩ := hedgeKnown hvertex
    simp only [Bool.false_eq_true, if_false, reduceCtorEq]
    obtain ⟨e, hfill, helabel, hsrc, hdst, hcarries, hop, hsame⟩ :=
      @fillEdge_content cfg log row label { out with
        entityType := .edge, opType := slot.2, txId := h.txId, snapshot := h.snapshot
        updateHasFinishDelete := if twoStep cfg h label then !out.updateHasFinishDelete else out.updateHasFinishDelete }
        t hrow ht hread hcomplete
    rw [hfill]
    dsimp only [bind, Except.bind]
    obtain ⟨properties, hrun, htexts⟩ := hprop e hop (hsame.trans hproperties)
    refine ⟨_, hrun, ?_, fun _ => ⟨t, by rw [hname]; exact ht, by rw [hname]; exact helabel, hsrc, hdst,
      hcarries.congr rfl rfl rfl⟩, htexts⟩
    intro htrue
    rw [hname, hvertex] at htrue
    cases htrue

end fill

/-! ### The loop -/

/-- The variables of `process_binlog_step_1` and the queue that it fills. -/
structure Step1 where
  logEntry : LogEntry
  queue : List LogEntry := []
  unifiedLogCount : Nat := 0

def Step1.enqueue (s : Step1) : Step1 :=
  if s.logEntry.complete then
    { s with queue := s.queue ++ [s.logEntry], unifiedLogCount := s.unifiedLogCount + 1 }
  else s

/-- The loop from `s` on parses the entries `es`, one after the other in `log_entry`, and ends in `t`. -/
inductive Step1Loop (cfg : ParserConfig) (log : Json) : Step1 → List LogEntry → Step1 → Prop
  | done {s : Step1} : s.logEntry.moreEntires = false → Step1Loop cfg log s [s.logEntry] s.enqueue
  | next {s t : Step1} {e : LogEntry} {es : List LogEntry} : s.logEntry.moreEntires = true →
      parse cfg s.logEntry log = .ok e → Step1Loop cfg log { s.enqueue with logEntry := e } es t →
        Step1Loop cfg log s (s.logEntry :: es) t

/-- An entry with what the slot takes from its row. -/
structure SlotEntry (cfg : ParserConfig) (h : Header) (log : Json) (slot : Slot) (e : LogEntry) : Prop where
  filled : Filled cfg h log slot e
  content : ∃ row, rowOf cfg.build slot.2 log = .ok row ∧ Content cfg row slot e

section loop
variable {cfg : ParserConfig} {h : Header} {log : Json} {out e : LogEntry} {s t t' : Step1} {es es' : List LogEntry}

theorem Step1Loop.unique (hrun : Step1Loop cfg log s es t) (hrun' : Step1Loop cfg log s es' t') :
    es = es' ∧ t = t' := by
  induction hrun generalizing es' t' with
  | done hmore =>
    cases hrun' with
    | done => exact ⟨rfl, rfl⟩
    | next hmore' => exact absurd (hmore.symm.trans hmore') (by decide)
  | next hmore hparse _ ih =>
    cases hrun' with
    | done hmore' => exact absurd (hmore'.symm.trans hmore) (by decide)
    | next _ hparse' hrest =>
      have hsame := Except.ok.inj (hparse.symm.trans hparse')
      subst hsame
      obtain ⟨hes, ht⟩ := ih hrest
      exact ⟨congrArg _ hes, ht⟩

theorem enqueue_eq (s : Step1) : s.enqueue = { s with
    queue := s.queue ++ [s.logEntry].filter LogEntry.complete
    unifiedLogCount := s.unifiedLogCount + ([s.logEntry].filter LogEntry.complete).length } := by
  unfold Step1.enqueue
  cases hc : s.logEntry.complete with
  | true =>
    rw [if_pos rfl, List.filter_cons_of_pos hc]
    rfl
  | false =>
    rw [if_neg (by decide), List.filter_cons_of_neg (by rw [hc]; decide), List.filter_nil, List.append_nil]
    rfl

/-- Everything that is needed to fill the slots of an event can be read. -/
def RowsReadable (cfg : ParserConfig) (h : Header) (log : Json) : Prop :=
  ∀ slot ∈ slots cfg h, ∃ row, rowOf cfg.build slot.2 log = .ok row ∧ Readable cfg.build row (columnsOf cfg slot.1)

theorem nextSlot_mem_slots {label : String} (hready : Ready cfg h out) (hlabel : h.labels[out.tableIdx]? = some label) :
    (∃ rest, pending cfg h out = nextSlot cfg h label out.updateHasFinishDelete :: rest) ∧
      nextSlot cfg h label out.updateHasFinishDelete ∈ slots cfg h := by
  have hin := hready.inTable
  have hdrop := List.drop_eq_getElem_cons hin
  rw [(List.getElem_eq_iff hin).mpr hlabel] at hdrop
  have hmem : ∀ slot ∈ labelSlots cfg h label, slot ∈ slots cfg h := fun slot hslot =>
    List.mem_flatMap.mpr ⟨label, List.mem_of_getElem? hlabel, hslot⟩
  unfold pending
  rw [hdrop]
  dsimp only
  cases htwo : twoStep cfg h label with
  | true =>
    have hslots : labelSlots cfg h label = [(label, .delete), (label, .insert)] := by
      unfold labelSlots
      rw [htwo, if_pos rfl]
    rw [hslots] at hmem ⊢
    cases hflag : out.updateHasFinishDelete with
    | true =>
      have hslot : nextSlot cfg h label true = (label, .insert) := by simp [nextSlot, htwo]
      rw [hslot]
      exact ⟨⟨_, rfl⟩, hmem _ (List.mem_cons_of_mem _ List.mem_cons_self)⟩
    | false =>
      have hslot : nextSlot cfg h label false = (label, .delete) := by simp [nextSlot, htwo]
      rw [hslot]
      exact ⟨⟨_, rfl⟩, hmem _ List.mem_cons_self⟩
  | false =>
    have hslots : labelSlots cfg h label = [(label, h.opType)] := by
      unfold labelSlots
      rw [htwo]
      rfl
    have hslot : ∀ flag, nextSlot cfg h label flag = (label, h.opType) := by simp [nextSlot, htwo]
    rw [hslots] at hmem ⊢
    cases hflag : out.updateHasFinishDelete with
    | true =>
      obtain ⟨label', hlabel', htwo'⟩ := hready.update hflag
      rw [hlabel] at hlabel'
      rw [← Option.some.inj hlabel', htwo] at htwo'
      cases htwo'
    | false =>
      rw [hslot]
      exact ⟨⟨_, rfl⟩, hmem _ List.mem_cons_self⟩

theorem parse_entry (hheader : header cfg log = .ok (some h)) (hrows : RowsReadable cfg h log)
    (hready : Ready cfg h out) :
    ∃ e slot, parse cfg out log = .ok e ∧ pending cfg h out = slot :: slotsLeft cfg h e ∧ SlotEntry cfg h log slot e ∧
      e.valid = true ∧ Ready cfg h e := by
  have hin := hready.inTable
  have hget := List.getElem?_eq_getElem hin
  generalize h.labels[out.tableIdx] = label at hget
  obtain ⟨⟨rest, hhead⟩, hslot⟩ := nextSlot_mem_slots hready hget
  obtain ⟨row, hrow, hread⟩ := hrows _ hslot
  obtain ⟨⟨-, table, htable⟩, -⟩ := header_labels hheader
  have hlabel : label ∈ cfg.mapping.labelNames table := by
    rw [← htable]
    exact List.mem_of_getElem? hget
  obtain ⟨e, hfill, hcontent⟩ := @fillEntry_content cfg h log row label table out.reset rfl rfl hlabel hrow hread
  have hparse : parse cfg out log = .ok (e.nextLabel h.labels.length) := by
    have hidx : out.reset.tableIdx = out.tableIdx := rfl
    unfold parse
    dsimp only
    rw [hheader]
    dsimp only [bind, Except.bind]
    rw [hidx, hget]
    show (fillEntry cfg h label log out.reset >>= fun out => pure (out.nextLabel h.labels.length)) = _
    rw [hfill]
    rfl
  obtain ⟨slot, hpending, hfilled, hvalid, hready'⟩ := (parse_spec hheader hready).of_ok hparse
  have hsame : slot = nextSlot cfg h label out.updateHasFinishDelete := (List.cons.inj (hpending.symm.trans hhead)).1
  refine ⟨_, slot, hparse, hpending, ⟨hfilled, row, ?_, ?_⟩, hvalid, hready'⟩
  · rw [hsame]
    exact hrow
  · obtain ⟨idx, all, heq⟩ := nextLabel_eq e h.labels.length
    rw [heq, hsame]
    refine ⟨hcontent.vertex, fun hedge => ?_, hcontent.properties⟩
    obtain ⟨t, ht, helabel, hsrc, hdst, hcarries⟩ := hcontent.edge hedge
    exact ⟨t, ht, helabel, hsrc, hdst, hcarries.congr rfl rfl rfl⟩

theorem pushed_eq_filter (e : LogEntry) : e.pushed = [e].filter LogEntry.complete := by
  unfold LogEntry.pushed
  cases hc : e.complete <;> simp [hc]

theorem loop_entries (hheader : header cfg log = .ok (some h)) (hrows : RowsReadable cfg h log) {n : Nat}
    (hready : Ready cfg h s.logEntry) (hn : (slotsLeft cfg h s.logEntry).length ≤ n) :
    ∃ es t, Step1Loop cfg log s (s.logEntry :: es) t ∧
        List.Forall₂ (SlotEntry cfg h log) (slotsLeft cfg h s.logEntry) es ∧
      t.queue = s.queue ++ (s.logEntry :: es).filter LogEntry.complete ∧
      t.unifiedLogCount = s.unifiedLogCount + ((s.logEntry :: es).filter LogEntry.complete).length ∧
      expand cfg log n s.logEntry = .ok ((s.logEntry :: es).filter LogEntry.complete) := by
  induction n generalizing s with
  | zero =>
    have hmore : s.logEntry.moreEntires = false := by
      cases hmore : s.logEntry.moreEntires with
      | false => rfl
      | true =>
        have hleft : slotsLeft cfg h s.logEntry = pending cfg h s.logEntry := by simp [slotsLeft, hmore]
        obtain ⟨e, slot, -, hpending, -⟩ := parse_entry hheader hrows hready
        rw [hleft, hpending] at hn
        cases hn
    have hnil : slotsLeft cfg h s.logEntry = [] := by simp [slotsLeft, hmore]
    rw [hnil]
    refine ⟨[], _, .done hmore, .nil, ?_, ?_, congrArg Except.ok (pushed_eq_filter _)⟩
    · rw [enqueue_eq]
    · rw [enqueue_eq]
  | succ n ih =>
    unfold expand
    cases hmore : s.logEntry.moreEntires with
    | false =>
      have hnil : slotsLeft cfg h s.logEntry = [] := by simp [slotsLeft, hmore]
      rw [hnil]
      refine ⟨[], _, .done hmore, .nil, ?_, ?_, congrArg Except.ok (pushed_eq_filter _)⟩
      · rw [enqueue_eq]
      · rw [enqueue_eq]
    | true =>
      have hleft : slotsLeft cfg h s.logEntry = pending cfg h s.logEntry := by simp [slotsLeft, hmore]
      obtain ⟨e, slot, hparse, hpending, hentry, -, hready'⟩ := parse_entry hheader hrows hready
      rw [hleft, hpending] at hn ⊢
      obtain ⟨es, t, hloop, hes, hqueue, hcount, hexpand⟩ :=
        ih (s := { s.enqueue with logEntry := e }) hready' (Nat.le_of_succ_le_succ hn)
      have hsplit : (s.logEntry :: e :: es).filter LogEntry.complete =
          [s.logEntry].filter LogEntry.complete ++ (e :: es).filter LogEntry.complete := by
        rw [← List.filter_append]
        rfl
      rw [enqueue_eq] at hqueue hcount
      dsimp only at hqueue hcount hexpand
      refine ⟨e :: es, t, .next hmore hparse hloop, .cons hentry hes, ?_, ?_, ?_⟩
      · rw [hqueue, hsplit, List.append_assoc]
      · rw [hcount, hsplit, List.length_append, Nat.add_assoc]
      · rw [hparse, hsplit]
        dsimp only [bind, Except.bind]
        rw [if_pos rfl, hexpand, pushed_eq_filter]
        rfl

/-- The first step on an event: one entry for each slot in order, of which the complete ones go to the queue. -/
theorem event_entries (hheader : header cfg log = .ok (some h)) (hrows : RowsReadable cfg h log) :
    ∃ out es last, parse cfg {} log = .ok out ∧ out.valid = true ∧ Step1Loop cfg log { logEntry := out } es last ∧
      List.Forall₂ (SlotEntry cfg h log) (slots cfg h) es ∧ last.queue = es.filter LogEntry.complete ∧
      last.unifiedLogCount = last.queue.length ∧ processBinlogStep1 cfg (.text (some log)) = .ok last.queue := by
  have hready : Ready cfg h {} :=
    ⟨List.length_pos_iff.mpr (header_labels hheader).1.1, fun hup => by cases hup⟩
  obtain ⟨out, slot, hparse, hpending, hentry, hvalid, hready'⟩ := parse_entry hheader hrows hready
  have hslots : slots cfg h = slot :: slotsLeft cfg h out := by
    rw [← hpending, pending_eq rfl]
    rfl
  have hlength := length_slots_le hheader
  rw [hslots, List.length_cons] at hlength
  obtain ⟨es, last, hloop, hes, hqueue, hcount, hexpand⟩ :=
    loop_entries (s := { logEntry := out }) (n := rounds cfg) hheader hrows hready' (by dsimp only; omega)
  dsimp only at hqueue hcount hexpand
  rw [List.nil_append] at hqueue
  rw [Nat.zero_add, ← hqueue] at hcount
  refine ⟨out, out :: es, last, hparse, hvalid, hloop, ?_, hqueue, hcount, ?_⟩
  · rw [hslots]
    exact .cons hentry hes
  · unfold processBinlogStep1
    dsimp only
    rw [hparse]
    show (if out.valid = true then expand cfg log (rounds cfg) out else pure []) = _
    rw [if_pos hvalid, hexpand, hqueue]

end loop

/-! ### Events of the Debezium build -/

def imageOf (log : Json) (op : OpType) : Json := log.member (if op = .delete then "before" else "after")

def HasImage (log : Json) (key : String) : Prop := ∃ row, log.constIndex key = .ok row ∧ row.isRow = true

/-- A row event of Debezium on a mapped table: an insert, an update, a delete or a snapshot read, with its images. -/
structure RowEvent (cfg : ParserConfig) (log : Json) (table type snapshot : String) (txId : Int) : Prop where
  hasTable : tableName .debezium log = .ok table
  mapped : cfg.mapping.labelNames table ≠ []
  hasOp : (log.index "op").bind Json.getString = .ok type
  known : type = "c" ∨ type = "u" ∨ type = "d" ∨ type = "r"
  hasTxId : ((log.index "source").bind fun source => sourceTxId source type) = .ok txId
  hasSnapshot : ((log.index "source").bind fun source => (source.index "snapshot").bind Json.getString) = .ok snapshot
  reading : type = "r" → snapshot ≠ "false"
  after : type ≠ "d" → HasImage log "after"
  before : type = "u" ∨ type = "d" → HasImage log "before"

section debezium
variable {cfg : ParserConfig} {log : Json} {table type snapshot : String} {txId : Int}

def eventHeader (cfg : ParserConfig) (table type snapshot : String) (txId : Int) : Header :=
  ⟨cfg.mapping.labelNames table, opTypeOf .debezium type, txId, snapshotOf snapshot⟩

theorem opTypeOf_known (h : type = "c" ∨ type = "u" ∨ type = "d" ∨ type = "r") :
    opTypeOf .debezium type ≠ .unknown ∧ (opTypeOf .debezium type = .delete ↔ type = "d") ∧
      (opTypeOf .debezium type = .update ↔ type = "u") := by
  rcases h with rfl | rfl | rfl | rfl <;> decide

theorem header_of_rowEvent (hbuild : cfg.build = .debezium) (h : RowEvent cfg log table type snapshot txId) :
    header cfg log = .ok (some (eventHeader cfg table type snapshot txId)) := by
  obtain ⟨op, hop, htype⟩ := bind_eq_ok h.hasOp
  obtain ⟨source, hsource, htx⟩ := bind_eq_ok h.hasTxId
  have hsnapshot := h.hasSnapshot
  rw [hsource] at hsnapshot
  obtain ⟨field, hfield, hsnapshot⟩ := bind_eq_ok (show source.index "snapshot" >>= Json.getString = _ from hsnapshot)
  have hread : ¬ (type = "r" ∧ snapshot = "false") := fun hboth => h.reading hboth.1 hboth.2
  unfold header
  rw [hbuild]
  dsimp only
  rw [h.hasTable]
  dsimp only [bind, Except.bind]
  rw [if_neg h.mapped, hop]
  dsimp only
  rw [htype]
  dsimp only
  rw [hsource]
  dsimp only
  rw [htx]
  dsimp only
  rw [hfield]
  dsimp only
  rw [hsnapshot]
  dsimp only
  rw [if_neg hread, if_neg (opTypeOf_known h.known).1]
  rfl

theorem rowOf_image {op : OpType} (hop : op = .insert ∨ op = .update ∨ op = .delete)
    (h : HasImage log (if op = .delete then "before" else "after")) :
    rowOf .debezium op log = .ok (imageOf log op) ∧ (imageOf log op).isRow = true := by
  obtain ⟨row, hrow, hisRow⟩ := h
  have hmember : log.member (if op = .delete then "before" else "after") = row := by
    cases log with
    | object members =>
      unfold Json.constIndex at hrow
      unfold Json.member
      dsimp only at hrow ⊢
      cases hvalue : members.lookup (if op = .delete then "before" else "after") with
      | none =>
        rw [hvalue] at hrow
        cases hrow
      | some value =>
        rw [hvalue] at hrow
        exact Except.ok.inj hrow
    | _ => cases hrow
  unfold imageOf
  rw [hmember]
  refine ⟨?_, hisRow⟩
  rcases hop with rfl | rfl | rfl
  · exact hrow
  · exact hrow
  · exact hrow

theorem slot_image (h : RowEvent cfg log table type snapshot txId) {slot : Slot}
    (hslot : slot ∈ slots cfg (eventHeader cfg table type snapshot txId)) :
    rowOf .debezium slot.2 log = .ok (imageOf log slot.2) ∧ (imageOf log slot.2).isRow = true := by
  obtain ⟨-, hdelete, hupdate⟩ := opTypeOf_known h.known
  obtain ⟨label, -, hin⟩ := List.mem_flatMap.mp hslot
  unfold labelSlots at hin
  by_cases htwo : twoStep cfg (eventHeader cfg table type snapshot txId) label = true
  · have hop : opTypeOf .debezium type = .update := by
      unfold twoStep at htwo
      exact of_decide_eq_true (Bool.and_eq_true_iff.mp htwo).1
    have hu := hupdate.mp hop
    rw [if_pos htwo] at hin
    rcases List.mem_cons.mp hin with rfl | hin
    · exact rowOf_image (Or.inr (Or.inr rfl)) (h.before (Or.inl hu))
    · rw [List.mem_singleton.mp hin]
      refine rowOf_image (Or.inl rfl) (h.after ?_)
      rw [hu]
      decide
  · rw [if_neg htwo] at hin
    rw [List.mem_singleton.mp hin]
    show rowOf .debezium (opTypeOf .debezium type) log = _ ∧ _
    have hknown : opTypeOf .debezium type = .insert ∨ opTypeOf .debezium type = .update ∨
        opTypeOf .debezium type = .delete := by
      rcases h.known with rfl | rfl | rfl | rfl <;> decide
    refine rowOf_image hknown ?_
    by_cases hd : type = "d"
    · rw [if_pos (hdelete.mpr hd)]
      exact h.before (Or.inr hd)
    · rw [if_neg fun hop => hd (hdelete.mp hop)]
      exact h.after hd

end debezium

structure EventEntry (cfg : ParserConfig) (log : Json) (slot : Slot) (e : LogEntry) : Prop where
  entity : e.entityType = entityOf cfg slot.1
  op : e.opType = slot.2
  content : Content cfg (imageOf log slot.2) slot e

/-- The loop on a row event ends. It parses one entry for each label of the table in their order, for an update of an
edge label a deletion from the image before and an insertion from the image after, and the queue gets in this order
all of them but the edges with a null endpoint. -/
theorem rowEvent_expansion {cfg : ParserConfig} {log : Json} {table type snapshot : String} {txId : Int}
    (hbuild : cfg.build = .debezium) (hevent : RowEvent cfg log table type snapshot txId) :
    ∃ out es last, parse cfg {} log = .ok out ∧ out.valid = true ∧ Step1Loop cfg log { logEntry := out } es last ∧
      List.Forall₂ (EventEntry cfg log) (slots cfg (eventHeader cfg table type snapshot txId)) es ∧
      last.queue = es.filter LogEntry.complete ∧ last.unifiedLogCount = last.queue.length ∧
      processBinlogStep1 cfg (.text (some log)) = .ok last.queue := by
  have hrows : RowsReadable cfg (eventHeader cfg table type snapshot txId) log := by
    intro slot hslot
    obtain ⟨hrow, hisRow⟩ := slot_image hevent hslot
    rw [hbuild]
    exact ⟨_, hrow, readable_debezium hisRow⟩
  obtain ⟨out, es, last, hparse, hvalid, hloop, hes, hqueue, hcount, hstep⟩ :=
    event_entries (header_of_rowEvent hbuild hevent) hrows
  refine ⟨out, es, last, hparse, hvalid, hloop, ?_, hqueue, hcount, hstep⟩
  have hall : List.Forall₂ (fun slot e => SlotEntry cfg (eventHeader cfg table type snapshot txId) log slot e)
      (slots cfg (eventHeader cfg table type snapshot txId)) es := hes
  obtain ⟨hlength, heach⟩ := List.forall₂_iff_get.mp hall
  refine List.forall₂_iff_get.mpr ⟨hlength, fun i h1 h2 => ?_⟩
  have hentry := heach i h1 h2
  obtain ⟨row, hrow, hcontent⟩ := hentry.content
  rw [hbuild, (slot_image hevent (List.get_mem _ _)).1] at hrow
  rw [← Except.ok.inj hrow] at hcontent
  exact ⟨hentry.filled.entity, hentry.filled.op, hcontent⟩

def knowsType : EdgeType :=
  { dataSourceName := "person", edge := "knows", sourceVertex := "person", destinationVertex := "person"
    sourceColumn := "id", destinationColumn := "friend", dataFieldMappings := [] }

def friendMapping (build : Build) : ParserConfig :=
  { build := build
    mapping := {
      vertexTypes := [{ dataSourceName := "person", typeName := "person", idFieldName := "id", mappings := ["name"] }]
      edgeTypes := [knowsType]
      known := by simp [knowsType] }
    subgraphNum := 1 }

def personJson (friend : Int) : Json :=
  .object [("id", .integer 1), ("name", .string "x"), ("friend", .integer friend)]

def friendUpdate : Json :=
  .object [("source", .object [("table", .string "person"), ("txId", .integer 5), ("snapshot", .string "false")]),
    ("op", .string "u"), ("before", personJson 2), ("after", personJson 3)]

theorem rowEvent_expansion_friend : ∃ es last, Step1Loop (friendMapping .debezium) friendUpdate
    { logEntry := es.headD {} } es last ∧ last.unifiedLogCount = 3 := by
  have hevent : RowEvent (friendMapping .debezium) friendUpdate "person" "u" "false" 5 := by
    refine ⟨rfl, ?_, rfl, by decide, rfl, rfl, fun hr => absurd hr (by decide), fun _ => ⟨personJson 3, rfl, rfl⟩,
      fun _ => ⟨personJson 2, rfl, rfl⟩⟩
    decide +kernel
  obtain ⟨out, es, last, -, -, hloop, -, -, hcount, hstep⟩ := rowEvent_expansion rfl hevent
  have hqueue : (processBinlogStep1 (friendMapping .debezium) (.text (some friendUpdate))).toOption.map List.length =
      some 3 := by
    decide +kernel
  rw [hstep] at hqueue
  have hhead : es.headD {} = out := by
    cases hloop <;> rfl
  exact ⟨es, last, by rw [hhead]; exact hloop, hcount.trans (Option.some.inj hqueue)⟩

/-! ### Updates in the Maxwell build -/

/-- An update event of Maxwell on a mapped table: `data` has the row after the update, `old` the values that the
changed columns had before it. -/
structure MaxwellUpdate (cfg : ParserConfig) (log : Json) (table : String) (data old : List (String × Json)) :
    Prop where
  hasTable : tableName .maxwell log = .ok table
  mapped : cfg.mapping.labelNames table ≠ []
  hasType : (log.index "type").bind Json.getString = .ok "update"
  hasData : log.constIndex "data" = .ok (.object data)
  hasOld : log.constIndex "old" = .ok (.object old)
  columns : ∀ label ∈ cfg.mapping.labelNames table, ∀ name ∈ columnsOf cfg label, (data.lookup name).isSome

def rowBefore (data old : List (String × Json)) : Json := .object (old ++ data)

/-- The entries of each edge label are a deletion with the endpoints before the update and an insertion with the
endpoints and the properties after it. -/
def ReplacesEdges (cfg : ParserConfig) (before after : Json) (slots : List Slot) (es : List LogEntry) : Prop :=
  List.Forall₂ (fun slot e => ∀ t, cfg.mapping.isVertexLabel slot.1 = false → cfg.mapping.edgeType slot.1 = some t →
    e.opType = slot.2 ∧ (slot.2 = .delete → e.Carries (endpoints before t)) ∧
      (slot.2 = .insert → e.Carries (endpoints after t) ∧
        (e.complete = true → e.properties = propertyTexts cfg slot.1 after))) slots es

def updateHeader (cfg : ParserConfig) (table : String) : Header := ⟨cfg.mapping.labelNames table, .update, 0, .no⟩

/-- The first step replaces the old edges of an update by the new ones. -/
def UpdateReplaced (cfg : ParserConfig) (log : Json) (table : String) (data old : List (String × Json)) : Prop :=
  ∃ out es last, parse cfg {} log = .ok out ∧ Step1Loop cfg log { logEntry := out } es last ∧
    last.queue = es.filter LogEntry.complete ∧
    ReplacesEdges cfg (rowBefore data old) (.object data) (slots cfg (updateHeader cfg table)) es

section maxwell
variable {cfg : ParserConfig} {log : Json} {table : String} {data old : List (String × Json)}

theorem header_of_maxwellUpdate (hbuild : cfg.build = .maxwell) (h : MaxwellUpdate cfg log table data old) :
    header cfg log = .ok (some (updateHeader cfg table)) := by
  obtain ⟨type, htype, hupdate⟩ := bind_eq_ok (show log.index "type" >>= Json.getString = _ from h.hasType)
  unfold header
  rw [hbuild]
  dsimp only
  rw [h.hasTable]
  dsimp only [bind, Except.bind]
  rw [if_neg h.mapped, htype]
  dsimp only
  rw [hupdate]
  rfl

theorem maxwell_entries (hbuild : cfg.build = .maxwell) (h : MaxwellUpdate cfg log table data old) :
    ∃ out es last, parse cfg {} log = .ok out ∧ Step1Loop cfg log { logEntry := out } es last ∧
      last.queue = es.filter LogEntry.complete ∧
      List.Forall₂ (fun slot e => e.opType = slot.2 ∧ Content cfg (.object data) slot e)
        (slots cfg (updateHeader cfg table)) es := by
  have hrow : ∀ op, rowOf .maxwell op log = .ok (.object data) := fun _ => h.hasData
  have hrows : RowsReadable cfg (updateHeader cfg table) log := by
    intro slot hslot
    obtain ⟨label, hlabel, hin⟩ := List.mem_flatMap.mp hslot
    rw [hbuild, fst_of_mem_labelSlots hin]
    exact ⟨_, hrow _, readable_maxwell (h.columns label hlabel)⟩
  obtain ⟨out, es, last, hparse, -, hloop, hes, hqueue, -, -⟩ :=
    event_entries (header_of_maxwellUpdate hbuild h) hrows
  refine ⟨out, es, last, hparse, hloop, hqueue, hes.imp fun slot e hentry => ⟨hentry.filled.op, ?_⟩⟩
  obtain ⟨row, hrow', hcontent⟩ := hentry.content
  rw [hbuild, hrow] at hrow'
  rw [Except.ok.inj hrow']
  exact hcontent

/-- The deletion is filled from the row after the update, so it deletes the old edge only if that is the same. -/
theorem UpdateReplaced.endpoints_eq (hbuild : cfg.build = .maxwell) (h : MaxwellUpdate cfg log table data old)
    (hreplaced : UpdateReplaced cfg log table data old) {label : String} (hlabel : label ∈ cfg.mapping.labelNames table)
    {t : EdgeType} (hedge : cfg.mapping.isVertexLabel label = false) (ht : cfg.mapping.edgeType label = some t) :
    endpoints (rowBefore data old) t = endpoints (.object data) t := by
  obtain ⟨out, es, last, hparse, hloop, -, hes⟩ := maxwell_entries hbuild h
  obtain ⟨out', es', last', hparse', hloop', -, hreplaces⟩ := hreplaced
  have hout := Except.ok.inj (hparse'.symm.trans hparse)
  subst hout
  rw [(hloop'.unique hloop).1] at hreplaces
  have htwo : twoStep cfg (updateHeader cfg table) label = true := by simp [twoStep, updateHeader, hedge]
  have hslot : (label, OpType.delete) ∈ slots cfg (updateHeader cfg table) := by
    refine List.mem_flatMap.mpr ⟨label, hlabel, ?_⟩
    unfold labelSlots
    rw [if_pos htwo]
    exact List.mem_cons_self
  obtain ⟨i, hi⟩ := List.mem_iff_getElem?.mp hslot
  obtain ⟨hlt, hget⟩ := List.getElem?_eq_some_iff.mp hi
  obtain ⟨hlength, heach⟩ := List.forall₂_iff_get.mp hes
  obtain ⟨-, heachReplaces⟩ := List.forall₂_iff_get.mp hreplaces
  have hcontent := (heach i hlt (by omega)).2
  have hdelete := heachReplaces i hlt (by omega)
  rw [List.get_eq_getElem, hget] at hcontent hdelete
  obtain ⟨t', ht', -, -, -, hcarries⟩ := hcontent.edge hedge
  rw [ht] at ht'
  rw [← Option.some.inj ht'] at hcarries
  exact ((hdelete t hedge ht).2.1 rfl).eq hcarries

end maxwell

/-- An update event is expanded into the deletion of the old edges and the insertion of the new ones if and only if
each edge label of the table has the same endpoints before and after it: the same two ids, or a null key both times. -/
theorem updateReplaced_iff {cfg : ParserConfig} {log : Json} {table : String} {data old : List (String × Json)}
    (hbuild : cfg.build = .maxwell) (h : MaxwellUpdate cfg log table data old) :
    UpdateReplaced cfg log table data old ↔ ∀ label ∈ cfg.mapping.labelNames table, ∀ t,
      cfg.mapping.isVertexLabel label = false → cfg.mapping.edgeType label = some t →
        endpoints (rowBefore data old) t = endpoints (.object data) t := by
  constructor
  · intro hreplaced label hlabel t hedge ht
    exact hreplaced.endpoints_eq hbuild h hlabel hedge ht
  · intro hsame
    obtain ⟨out, es, last, hparse, hloop, hqueue, hes⟩ := maxwell_entries hbuild h
    refine ⟨out, es, last, hparse, hloop, hqueue, ?_⟩
    obtain ⟨hlength, heach⟩ := List.forall₂_iff_get.mp hes
    refine List.forall₂_iff_get.mpr ⟨hlength, fun i h1 h2 t hedge ht => ?_⟩
    obtain ⟨hop, hcontent⟩ := heach i h1 h2
    obtain ⟨t', ht', -, -, -, hcarries⟩ := hcontent.edge hedge
    rw [ht] at ht'
    rw [← Option.some.inj ht'] at hcarries
    refine ⟨hop, fun _ => ?_, fun hinsert => ⟨hcarries, fun hcomplete => ?_⟩⟩
    · obtain ⟨label, hlabel, hin⟩ := List.mem_flatMap.mp (List.get_mem (slots cfg (updateHeader cfg table)) ⟨i, h1⟩)
      rw [fst_of_mem_labelSlots hin] at hedge ht
      rw [hsame label hlabel t hedge ht]
      exact hcarries
    · rw [hcontent.properties hcomplete, hinsert]
      rfl

/-- An update of person 1 with the values that the changed columns had. -/
def maxwellUpdate (data old : List (String × Json)) : Json :=
  .object [("type", .string "update"), ("table", .string "person"), ("data", .object data), ("old", .object old)]

def personColumns (friend : Int) : List (String × Json) :=
  [("id", .integer 1), ("name", .string "x"), ("friend", .integer friend)]

theorem friend_event {friend : Int} {old : List (String × Json)} : MaxwellUpdate (friendMapping .maxwell)
    (maxwellUpdate (personColumns friend) old) "person" (personColumns friend) old := by
  have hnames : (friendMapping .maxwell).mapping.labelNames "person" = ["person", "knows"] := by decide +kernel
  have hcolumns : ∀ label ∈ ["person", "knows"], ∀ name ∈ columnsOf (friendMapping .maxwell) label,
      name ∈ ["id", "name", "friend"] := by decide +kernel
  refine ⟨rfl, by rw [hnames]; decide, rfl, rfl, rfl, ?_⟩
  intro label hlabel name hname
  rw [hnames] at hlabel
  have hmem := hcolumns label hlabel name hname
  simp only [List.mem_cons, List.not_mem_nil, or_false] at hmem
  rcases hmem with rfl | rfl | rfl <;> rfl

/-- A new name leaves the edge as it is. -/
theorem updateReplaced_iff_name : UpdateReplaced (friendMapping .maxwell)
    (maxwellUpdate (personColumns 2) [("name", .string "y")]) "person" (personColumns 2) [("name", .string "y")] := by
  refine (updateReplaced_iff rfl friend_event).mpr fun label _ t _ ht => ?_
  have hmem : t ∈ (friendMapping .maxwell).mapping.edgeTypes := List.mem_of_find?_eq_some ht
  rw [List.mem_singleton.mp hmem]
  rfl

/-- Of another friend in the place of 2 the deletion names the new one. -/
theorem updateReplaced_friend : ¬ UpdateReplaced (friendMapping .maxwell)
    (maxwellUpdate (personColumns 3) [("friend", .integer 2)]) "person" (personColumns 3) [("friend", .integer 2)] := by
  intro hreplaced
  have hlabel : "knows" ∈ (friendMapping .maxwell).mapping.labelNames "person" := by decide +kernel
  have hsame := hreplaced.endpoints_eq rfl friend_event hlabel (by decide +kernel) rfl
  have hne : endpoints (rowBefore (personColumns 3) [("friend", .integer 2)]) knowsType ≠
      endpoints (.object (personColumns 3)) knowsType := by decide +kernel
  exact hne hsame

end Gart.Converter
