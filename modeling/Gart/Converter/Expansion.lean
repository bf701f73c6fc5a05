import Gart.Converter.Parser
import Gart.Lib.Outcome

/-!
# From an event to its log entries

`process_binlog_step_1` parses one event again and again on the same entry. An
event has one entry for each label of its table, and two for an edge label when
it is an update; the complete ones go to the second step.
-/

namespace Gart.Converter
open Gart.Outcome

/-- A message of the source; `none` is a text that is not JSON. -/
inductive Line
  | noMessage
  | text (log : Option Json)

def LogEntry.pushed (out : LogEntry) : List LogEntry := if out.complete then [out] else []

/-- The loop over `more_entires`; the first argument bounds its rounds. -/
def expand (cfg : ParserConfig) (log : Json) : Nat → LogEntry → Except Fault (List LogEntry)
  | 0, out => .ok out.pushed
  | n + 1, out =>
    if out.moreEntires then do
      let rest ← expand cfg log n (← parse cfg out log)
      return out.pushed ++ rest
    else
      .ok out.pushed

def rounds (cfg : ParserConfig) : Nat :=
  2 * (cfg.mapping.vertexTypes.length + cfg.mapping.edgeTypes.length)

/-- The entries that one round of `process_binlog_step_1` hands over (`binlog_convert.cc:71-142`). -/
def processBinlogStep1 (cfg : ParserConfig) : Line → Except Fault (List LogEntry)
  | .noMessage => .ok []
  | .text none => .error .parseJsonError
  | .text (some log) => do
    let out ← parse cfg {} log
    if out.valid then expand cfg log (rounds cfg) out else return []

/-! ### What an entry is filled with -/

abbrev Slot := String × OpType

def twoStep (cfg : ParserConfig) (h : Header) (label : String) : Bool :=
  h.opType = .update && !cfg.mapping.isVertexLabel label

def labelSlots (cfg : ParserConfig) (h : Header) (label : String) : List Slot :=
  if twoStep cfg h label then [(label, .delete), (label, .insert)] else [(label, h.opType)]

def slots (cfg : ParserConfig) (h : Header) : List Slot := h.labels.flatMap (labelSlots cfg h)

def present (cfg : ParserConfig) (row : Json) (name : String) : Bool :=
  match column cfg.build row name with
  | .ok value => !value.isNull
  | .error _ => false

/-- Both foreign keys are in the row that the slot is filled from. -/
def hasEndpoints (cfg : ParserConfig) (log : Json) (slot : Slot) : Bool :=
  match rowOf cfg.build slot.2 log, cfg.mapping.edgeType slot.1 with
  | .ok row, some e =>
    present cfg row (RgMapping.edgeColumns e).1 && present cfg row (RgMapping.edgeColumns e).2
  | _, _ => false

def filledBy (cfg : ParserConfig) (log : Json) (slot : Slot) : Bool :=
  cfg.mapping.isVertexLabel slot.1 || hasEndpoints cfg log slot

def entityOf (cfg : ParserConfig) (label : String) : EntityType :=
  if cfg.mapping.isVertexLabel label then .vertex else .edge

def CanonicalId (text : String) (isString : Bool) : Prop :=
  ∃ value : Json, (text, isString) = externalIdOf value

structure Filled (cfg : ParserConfig) (h : Header) (log : Json) (slot : Slot) (e : LogEntry) :
    Prop where
  entity : e.entityType = entityOf cfg slot.1
  op : e.opType = slot.2
  txId : e.txId = h.txId
  snapshot : e.snapshot = h.snapshot
  complete : e.complete = filledBy cfg log slot
  vertexId : CanonicalId e.externalId e.isStringOid
  srcId : CanonicalId e.srcExternalId e.isSrcStringOid
  dstId : CanonicalId e.dstExternalId e.isDstStringOid

section fill
variable {cfg : ParserConfig} {log : Json} {label : String} {out : LogEntry}

abbrev Stops : Fault → Prop := fun _ => True

theorem canonicalId_reset : CanonicalId "" false := ⟨.null, rfl⟩

theorem fillVertex_spec : Ensures (fillVertex cfg label log out)
    (fun e => ∃ value, e = { out with
      vlabel := cfg.mapping.vertexLabelId label
      externalId := (externalIdOf value).1
      isStringOid := (externalIdOf value).2 }) Stops := by
  unfold fillVertex
  cases rowOf cfg.build out.opType log with
  | error f => trivial
  | ok row =>
    cases cfg.mapping.vertexIdColumn label with
    | none => trivial
    | some vidCol =>
      show Ensures (column cfg.build row vidCol >>= fun value => pure _) _ _
      cases column cfg.build row vidCol with
      | error f => trivial
      | ok value => exact ⟨value, rfl⟩

theorem fillEdge_spec : Ensures (fillEdge cfg label log out)
    (fun e => (hasEndpoints cfg log (label, out.opType) = false ∧
        ∃ ends : Nat × Nat, e = { out with
          elabel := cfg.mapping.elabelId label, srcVlabel := ends.1, dstVlabel := ends.2
          complete := false }) ∨
      (hasEndpoints cfg log (label, out.opType) = true ∧
        ∃ (ends : Nat × Nat) (src dst : Json), e = { out with
          elabel := cfg.mapping.elabelId label, srcVlabel := ends.1, dstVlabel := ends.2
          srcExternalId := (externalIdOf src).1, isSrcStringOid := (externalIdOf src).2
          dstExternalId := (externalIdOf dst).1, isDstStringOid := (externalIdOf dst).2 }))
    Stops := by
  unfold fillEdge hasEndpoints
  dsimp only
  cases rowOf cfg.build out.opType log with
  | error f => trivial
  | ok row =>
    cases cfg.mapping.edgeType label with
    | none => trivial
    | some e =>
      dsimp only [bind, Except.bind, present]
      cases column cfg.build row (RgMapping.edgeColumns e).1 with
      | error f => trivial
      | ok src =>
        dsimp only
        cases hsrc : src.isNull with
        | true => exact Or.inl ⟨rfl, cfg.mapping.edgeEndLabels e, rfl⟩
        | false =>
          cases column cfg.build row (RgMapping.edgeColumns e).2 with
          | error f => trivial
          | ok dst =>
            dsimp only
            cases hdst : dst.isNull with
            | true => exact Or.inl ⟨rfl, cfg.mapping.edgeEndLabels e, rfl⟩
            | false => exact Or.inr ⟨rfl, cfg.mapping.edgeEndLabels e, src, dst, rfl⟩

theorem fillProp_spec : Ensures (fillProp cfg label log out)
    (fun e => ∃ properties, e = { out with properties := properties }) Stops := by
  unfold fillProp
  cases rowOf cfg.build out.opType log with
  | error f => trivial
  | ok row =>
    show Ensures (((cfg.mapping.requiredProperties label).mapM (column cfg.build row)) >>=
      fun values => pure _) _ _
    cases (cfg.mapping.requiredProperties label).mapM (column cfg.build row) with
    | error f => trivial
    | ok values => exact ⟨_, rfl⟩

end fill

/-! ### One call of `parse` -/

/-- The slot that is filled next, by whether the deletion of an update is finished. -/
def nextSlot (cfg : ParserConfig) (h : Header) (label : String) (finished : Bool) : Slot :=
  (label, if twoStep cfg h label then (if finished then .insert else .delete) else h.opType)

/-- The state of the entry after its slot has been filled. -/
structure FilledAt (cfg : ParserConfig) (h : Header) (log : Json) (label : String)
    (out e : LogEntry) : Prop where
  filled : Filled cfg h log (nextSlot cfg h label out.updateHasFinishDelete) e
  flag : e.updateHasFinishDelete =
    (if twoStep cfg h label then !out.updateHasFinishDelete else out.updateHasFinishDelete)
  tableIdx : e.tableIdx = out.tableIdx

section parse
variable {cfg : ParserConfig} {h : Header} {log : Json} {label : String} {out : LogEntry}

theorem splitUpdate_eq (hlabel : out.entityType = entityOf cfg label) (hop : out.opType = h.opType) :
    out.splitUpdate = { out with
      opType := (nextSlot cfg h label out.updateHasFinishDelete).2
      updateHasFinishDelete :=
        if twoStep cfg h label then !out.updateHasFinishDelete else out.updateHasFinishDelete } := by
  have hiff : (out.opType = .update ∧ out.entityType = .edge) ↔ twoStep cfg h label = true := by
    rw [hlabel, hop]
    simp only [twoStep, entityOf, Bool.and_eq_true, decide_eq_true_eq, Bool.not_eq_true']
    cases cfg.mapping.isVertexLabel label <;> simp
  unfold LogEntry.splitUpdate nextSlot
  cases htwo : twoStep cfg h label with
  | false =>
    rw [if_neg (by rw [hiff, htwo]; decide)]
    simp only [Bool.false_eq_true, if_false, ← hop]
  | true =>
    rw [if_pos (hiff.mpr htwo)]
    cases hflag : out.updateHasFinishDelete <;> simp

theorem fillEntry_spec (hcomplete : out.complete = true)
    (hvertex : CanonicalId out.externalId out.isStringOid)
    (hsrc : CanonicalId out.srcExternalId out.isSrcStringOid)
    (hdst : CanonicalId out.dstExternalId out.isDstStringOid) :
    Ensures (fillEntry cfg h label log out) (FilledAt cfg h log label out) Stops := by
  unfold fillEntry
  dsimp only
  rw [@splitUpdate_eq cfg h label _ rfl rfl]
  dsimp only
  have hprop : ∀ e : LogEntry, FilledAt cfg h log label out e →
      Ensures (if e.opType ≠ .delete ∧ e.complete = true then fillProp cfg label log e else pure e)
        (FilledAt cfg h log label out) Stops := by
    intro e he
    split
    · refine fillProp_spec.imp ?_
      rintro _ ⟨properties, rfl⟩
      exact ⟨⟨he.filled.entity, he.filled.op, he.filled.txId, he.filled.snapshot,
        he.filled.complete, he.filled.vertexId, he.filled.srcId, he.filled.dstId⟩, he.flag,
        he.tableIdx⟩
    · exact he
  cases hlabel : cfg.mapping.isVertexLabel label with
  | true =>
    rw [if_pos (by simp)]
    refine Ensures.bind fillVertex_spec ?_
    rintro e ⟨value, rfl⟩
    apply hprop
    refine ⟨⟨?_, rfl, rfl, rfl, ?_, ⟨value, rfl⟩, hsrc, hdst⟩, rfl, rfl⟩
    · simp [entityOf, nextSlot, hlabel]
    · simp [filledBy, nextSlot, hlabel, hcomplete]
  | false =>
    rw [if_neg (by simp)]
    refine Ensures.bind fillEdge_spec ?_
    rintro e (⟨hends, ends, rfl⟩ | ⟨hends, ends, src, dst, rfl⟩)
    · apply hprop
      refine ⟨⟨?_, rfl, rfl, rfl, ?_, hvertex, hsrc, hdst⟩, rfl, rfl⟩
      · simp [entityOf, nextSlot, hlabel]
      · simpa [filledBy, nextSlot, hlabel] using hends.symm
    · apply hprop
      refine ⟨⟨?_, rfl, rfl, rfl, ?_, hvertex, ⟨src, rfl⟩, ⟨dst, rfl⟩⟩, rfl, rfl⟩
      · simp [entityOf, nextSlot, hlabel]
      · simpa [filledBy, nextSlot, hlabel, hcomplete] using hends.symm

end parse

/-! ### The loop -/

/-- The slots that further calls of `parse` fill. -/
def pending (cfg : ParserConfig) (h : Header) (out : LogEntry) : List Slot :=
  match h.labels.drop out.tableIdx with
  | [] => []
  | label :: rest =>
    (if out.updateHasFinishDelete then [(label, .insert)] else labelSlots cfg h label) ++
      rest.flatMap (labelSlots cfg h)

def slotsLeft (cfg : ParserConfig) (h : Header) (out : LogEntry) : List Slot :=
  if out.moreEntires then pending cfg h out else []

/-- The entry stands at a label, and waits for an insertion only of an update. -/
structure Ready (cfg : ParserConfig) (h : Header) (out : LogEntry) : Prop where
  inTable : out.tableIdx < h.labels.length
  update : out.updateHasFinishDelete = true →
    ∃ label, h.labels[out.tableIdx]? = some label ∧ twoStep cfg h label = true

section loop
variable {cfg : ParserConfig} {h : Header} {log : Json} {out : LogEntry}

theorem pending_eq (hflag : out.updateHasFinishDelete = false) :
    pending cfg h out = (h.labels.drop out.tableIdx).flatMap (labelSlots cfg h) := by
  unfold pending
  cases h.labels.drop out.tableIdx with
  | nil => rfl
  | cons label rest => simp [hflag]

theorem slotsLeft_nextLabel {e : LogEntry} (hflag : e.updateHasFinishDelete = false) :
    slotsLeft cfg h (e.nextLabel h.labels.length) =
      (h.labels.drop (e.tableIdx + 1)).flatMap (labelSlots cfg h) := by
  unfold LogEntry.nextLabel slotsLeft LogEntry.moreEntires
  simp only [hflag, Bool.false_eq_true, if_false]
  split
  · simp only [Bool.not_false, Bool.or_true, if_true]
    exact pending_eq rfl
  · rename_i hlast
    have hnil : h.labels.drop (e.tableIdx + 1) = [] := List.drop_eq_nil_of_le (by omega)
    simp [hnil]

theorem ready_nextLabel {e : LogEntry} (hflag : e.updateHasFinishDelete = false)
    (hpos : 0 < h.labels.length) : Ready cfg h (e.nextLabel h.labels.length) := by
  unfold LogEntry.nextLabel
  simp only [hflag, Bool.false_eq_true, if_false]
  split
  · rename_i hlt
    exact ⟨hlt, fun hup => by simp at hup⟩
  · exact ⟨hpos, fun hup => by simp at hup⟩

theorem nextLabel_eq (e : LogEntry) (n : Nat) : ∃ idx all,
    e.nextLabel n = { e with tableIdx := idx, allLabelsHaveProcess := all, valid := true } := by
  unfold LogEntry.nextLabel
  generalize (if e.updateHasFinishDelete then e.tableIdx else e.tableIdx + 1) = idx
  by_cases hidx : idx < n
  · exact ⟨idx, false, if_pos hidx⟩
  · exact ⟨0, true, if_neg hidx⟩

theorem filled_nextLabel {slot : Slot} {e : LogEntry} {n : Nat} (hf : Filled cfg h log slot e) :
    Filled cfg h log slot (e.nextLabel n) ∧ (e.nextLabel n).valid = true := by
  obtain ⟨idx, all, heq⟩ := nextLabel_eq e n
  rw [heq]
  exact ⟨⟨hf.entity, hf.op, hf.txId, hf.snapshot, hf.complete, hf.vertexId, hf.srcId, hf.dstId⟩, rfl⟩

theorem nextLabel_of_flag {e : LogEntry} (hflag : e.updateHasFinishDelete = true)
    (hin : e.tableIdx < h.labels.length) :
    e.nextLabel h.labels.length = { e with allLabelsHaveProcess := false, valid := true } := by
  unfold LogEntry.nextLabel
  simp only [hflag, if_true, if_pos hin]

theorem parse_spec (hheader : header cfg log = .ok (some h)) (hready : Ready cfg h out) :
    Ensures (parse cfg out log) (fun e => ∃ slot, pending cfg h out = slot :: slotsLeft cfg h e ∧
      Filled cfg h log slot e ∧ e.valid = true ∧ Ready cfg h e) Stops := by
  have hidx : out.reset.tableIdx = out.tableIdx := rfl
  have hin := hready.inTable
  have hget := List.getElem?_eq_getElem hin
  have hdrop := List.drop_eq_getElem_cons hin
  generalize h.labels[out.tableIdx] = label at hget hdrop
  have hpos : 0 < h.labels.length := by omega
  unfold parse
  dsimp only
  rw [hheader]
  dsimp only [bind, Except.bind]
  rw [hidx, hget]
  refine Ensures.bind (fillEntry_spec rfl canonicalId_reset canonicalId_reset canonicalId_reset) ?_
  intro e he
  have hslot : Filled cfg h log (nextSlot cfg h label out.updateHasFinishDelete) e := he.filled
  obtain ⟨hfilled, hvalid⟩ := @filled_nextLabel cfg h log _ e h.labels.length hslot
  have hflag : e.updateHasFinishDelete =
      (if twoStep cfg h label then !out.updateHasFinishDelete else out.updateHasFinishDelete) :=
    he.flag
  have hindex : e.tableIdx = out.tableIdx := he.tableIdx
  have hin : e.tableIdx < h.labels.length := by rw [hindex]; exact hready.inTable
  have hpending : pending cfg h out =
      (if out.updateHasFinishDelete then [(label, .insert)] else labelSlots cfg h label) ++
        (h.labels.drop (out.tableIdx + 1)).flatMap (labelSlots cfg h) := by
    unfold pending
    rw [hdrop]
  cases htwo : twoStep cfg h label with
  | false =>
    -- a label with one entry, which no update is waiting for
    have hout : out.updateHasFinishDelete = false := by
      cases hup : out.updateHasFinishDelete with
      | false => rfl
      | true =>
        obtain ⟨label', hlabel', htwo'⟩ := hready.update hup
        rw [hget] at hlabel'
        cases hlabel'
        rw [htwo] at htwo'
        cases htwo'
    have hdone : e.updateHasFinishDelete = false := by rw [hflag, htwo, hout]; rfl
    refine ⟨_, ?_, hfilled, hvalid, ready_nextLabel hdone hpos⟩
    rw [slotsLeft_nextLabel hdone, hpending, hindex]
    simp [hout, labelSlots, nextSlot, htwo]
  | true =>
    cases hout : out.updateHasFinishDelete with
    | false =>
      -- the deletion of an update, with its insertion left
      have hwait : e.updateHasFinishDelete = true := by rw [hflag, htwo, hout]; rfl
      rw [hout] at hfilled
      refine ⟨_, ?_, hfilled, hvalid, ?_⟩
      · rw [nextLabel_of_flag hwait hin, hpending]
        simp [slotsLeft, LogEntry.moreEntires, pending, hwait, hindex, hdrop, hout, labelSlots,
          nextSlot, htwo]
      · rw [nextLabel_of_flag hwait hin]
        exact ⟨hin, fun _ => ⟨label, by rw [← hget, ← hindex], htwo⟩⟩
    | true =>
      -- the insertion of an update
      have hdone : e.updateHasFinishDelete = false := by rw [hflag, htwo, hout]; rfl
      rw [hout] at hfilled
      refine ⟨_, ?_, hfilled, hvalid, ready_nextLabel hdone hpos⟩
      rw [slotsLeft_nextLabel hdone, hpending, hindex]
      simp [hout, nextSlot, htwo]

theorem expand_spec (hheader : header cfg log = .ok (some h)) {n : Nat} {slot : Slot}
    (hfilled : Filled cfg h log slot out) (hready : Ready cfg h out)
    (hn : (slotsLeft cfg h out).length ≤ n) :
    Ensures (expand cfg log n out) (fun es => ∃ all,
      List.Forall₂ (Filled cfg h log) (slot :: slotsLeft cfg h out) all ∧
        es = all.filter LogEntry.complete) Stops := by
  have hone : out.pushed = [out].filter LogEntry.complete := by
    unfold LogEntry.pushed
    cases hc : out.complete <;> simp [hc]
  induction n generalizing out slot with
  | zero =>
    have hnil : slotsLeft cfg h out = [] := List.eq_nil_of_length_eq_zero (by omega)
    rw [hnil]
    exact ⟨[out], .cons hfilled .nil, hone⟩
  | succ n ih =>
    unfold expand
    cases hmore : out.moreEntires with
    | false =>
      have hnil : slotsLeft cfg h out = [] := by simp [slotsLeft, hmore]
      rw [hnil]
      exact ⟨[out], .cons hfilled .nil, hone⟩
    | true =>
      have hleft : slotsLeft cfg h out = pending cfg h out := by simp [slotsLeft, hmore]
      rw [hleft] at hn ⊢
      refine Ensures.bind (parse_spec hheader hready) ?_
      rintro e ⟨slot', hpending, hfilled', -, hready'⟩
      rw [hpending] at hn ⊢
      have hlength : (slotsLeft cfg h e).length ≤ n := by
        simp only [List.length_cons] at hn
        omega
      have honeE : e.pushed = [e].filter LogEntry.complete := by
        unfold LogEntry.pushed
        cases hc : e.complete <;> simp [hc]
      refine Ensures.bind (ih hfilled' hready' hlength honeE) ?_
      rintro es ⟨all, hall, rfl⟩
      refine ⟨out :: all, .cons hfilled hall, ?_⟩
      rw [hone, ← List.filter_append]
      rfl

end loop

/-! ### The whole step -/

section step
variable {cfg : ParserConfig} {h : Header} {log : Json}

theorem header_labels (hheader : header cfg log = .ok (some h)) :
    (h.labels ≠ [] ∧ ∃ table, h.labels = cfg.mapping.labelNames table) ∧
      h.opType ≠ .unknown ∧ ∃ build type, h.opType = opTypeOf build type := by
  have hspec : Ensures (header cfg log) (fun r => ∀ h, r = some h →
      (h.labels ≠ [] ∧ ∃ table, h.labels = cfg.mapping.labelNames table) ∧
        h.opType ≠ .unknown ∧ ∃ build type, h.opType = opTypeOf build type) Stops := by
    unfold header
    have hany : ∀ {α : Type} (x : Except Fault α), Ensures x (fun _ => True) Stops := by
      intro α x
      cases x <;> trivial
    refine Ensures.bind (hany _) ?_
    intro table _
    dsimp only
    split
    · exact fun h heq => by cases heq
    · rename_i hlabels
      cases cfg.build with
      | debezium =>
        dsimp only
        refine Ensures.bind (hany _) fun op _ => Ensures.bind (hany _) fun type _ =>
          Ensures.bind (hany _) fun source _ => Ensures.bind (hany _) fun txId _ =>
          Ensures.bind (hany _) fun field _ => Ensures.bind (hany _) fun snapshot _ => ?_
        split
        · trivial
        · split
          · trivial
          · rename_i hknown
            intro h heq
            cases heq
            exact ⟨⟨hlabels, table, rfl⟩, hknown, .debezium, type, rfl⟩
      | maxwell =>
        dsimp only
        refine Ensures.bind (hany _) fun field _ => Ensures.bind (hany _) fun type _ => ?_
        split
        · trivial
        · rename_i hknown
          intro h heq
          cases heq
          exact ⟨⟨hlabels, table, rfl⟩, hknown, .maxwell, type, rfl⟩
  exact hspec.of_ok hheader h rfl

theorem length_slots_le (hheader : header cfg log = .ok (some h)) :
    (slots cfg h).length ≤ rounds cfg := by
  obtain ⟨⟨-, table, htable⟩, -⟩ := header_labels hheader
  have htwo : ∀ label, (labelSlots cfg h label).length ≤ 2 := by
    intro label
    unfold labelSlots
    split <;> simp
  have hbound : ∀ labels : List String, (labels.flatMap (labelSlots cfg h)).length ≤ 2 * labels.length := by
    intro labels
    induction labels with
    | nil => simp
    | cons label rest ih =>
      have hlabel := htwo label
      simp only [List.flatMap_cons, List.length_append, List.length_cons]
      omega
  have hslots := hbound h.labels
  have hlabels : h.labels.length ≤
      cfg.mapping.vertexTypes.length + cfg.mapping.edgeTypes.length := by
    rw [htable]
    unfold RgMapping.labelNames
    have hv := List.length_filter_le
      (fun v : VertexType => decide (toLowerCase v.dataSourceName = table)) cfg.mapping.vertexTypes
    have he := List.length_filter_le
      (fun e : EdgeType => decide (toLowerCase e.dataSourceName = table)) cfg.mapping.edgeTypes
    simp only [List.length_append, List.length_map]
    omega
  unfold slots rounds
  omega

theorem step1_unused (hheader : header cfg log = .ok none) :
    processBinlogStep1 cfg (.text (some log)) = .ok [] := by
  unfold processBinlogStep1 parse
  dsimp only
  rw [hheader]
  rfl

theorem step1_spec (hheader : header cfg log = .ok (some h)) :
    Ensures (processBinlogStep1 cfg (.text (some log))) (fun es => ∃ all,
      List.Forall₂ (Filled cfg h log) (slots cfg h) all ∧ es = all.filter LogEntry.complete)
      Stops := by
  have hready : Ready cfg h {} :=
    ⟨List.length_pos_iff.mpr (header_labels hheader).1.1, fun hup => by cases hup⟩
  have hlength := length_slots_le hheader
  unfold processBinlogStep1
  refine Ensures.bind (parse_spec hheader hready) ?_
  rintro e ⟨slot, hpending, hfilled, hvalid, hready'⟩
  have hslots : slots cfg h = slot :: slotsLeft cfg h e := by
    rw [← hpending, pending_eq rfl]
    rfl
  rw [hslots] at hlength ⊢
  rw [hvalid]
  apply expand_spec hheader hfilled hready'
  simp only [List.length_cons] at hlength
  omega

theorem filled_of_mem {ss : List Slot} {all : List LogEntry}
    (hall : List.Forall₂ (Filled cfg h log) ss all) {e : LogEntry} (he : e ∈ all) :
    ∃ slot ∈ ss, Filled cfg h log slot e := by
  induction hall with
  | nil => cases he
  | cons hfilled _ ih =>
    cases he with
    | head => exact ⟨_, List.mem_cons_self, hfilled⟩
    | tail _ hmem =>
      obtain ⟨slot, hslot, hf⟩ := ih hmem
      exact ⟨slot, List.mem_cons_of_mem _ hslot, hf⟩

theorem header_opType (hheader : header cfg log = .ok (some h)) :
    h.opType ≠ .bulkloadEnd ∧ h.opType ≠ .unknown := by
  obtain ⟨-, hknown, build, type, hop⟩ := header_labels hheader
  refine ⟨?_, hknown⟩
  rw [hop]
  unfold opTypeOf
  cases build with
  | maxwell => dsimp only; split <;> (try split) <;> (try split) <;> simp
  | debezium => dsimp only; split <;> (try split) <;> (try split) <;> (try split) <;> simp

theorem slots_op (hheader : header cfg log = .ok (some h)) {slot : Slot} (hslot : slot ∈ slots cfg h) :
    slot.2 ≠ .bulkloadEnd ∧ slot.2 ≠ .unknown := by
  obtain ⟨label, -, hin⟩ := List.mem_flatMap.mp hslot
  unfold labelSlots at hin
  split at hin
  · rcases List.mem_cons.mp hin with rfl | hin
    · simp
    · rw [List.mem_singleton.mp hin]
      simp
  · rw [List.mem_singleton.mp hin]
    exact header_opType hheader

theorem step1_filled (hheader : header cfg log = .ok (some h)) {es : List LogEntry}
    (hes : processBinlogStep1 cfg (.text (some log)) = .ok es) :
    ∀ e ∈ es, ∃ slot ∈ slots cfg h, Filled cfg h log slot e ∧ e.complete = true := by
  obtain ⟨all, hall, rfl⟩ := (step1_spec hheader).of_ok hes
  intro e he
  obtain ⟨slot, hslot, hfilled⟩ := filled_of_mem hall (List.mem_of_mem_filter he)
  exact ⟨slot, hslot, hfilled, (List.mem_filter.mp he).2⟩

theorem step1_header {line : Line} {es : List LogEntry} (hes : processBinlogStep1 cfg line = .ok es)
    (hne : es ≠ []) :
    ∃ log h, line = .text (some log) ∧ header cfg log = .ok (some h) := by
  cases line with
  | noMessage =>
    cases hes
    exact absurd rfl hne
  | text log =>
    cases log with
    | none => cases hes
    | some log =>
      cases hh : header cfg log with
      | error f =>
        unfold processBinlogStep1 parse at hes
        dsimp only at hes
        rw [hh] at hes
        cases hes
      | ok r =>
        cases r with
        | none =>
          rw [step1_unused hh] at hes
          cases hes
          exact absurd rfl hne
        | some h => exact ⟨log, h, rfl, hh⟩

theorem step1_ne_nil_iff (hheader : header cfg log = .ok (some h)) {es : List LogEntry}
    (hes : processBinlogStep1 cfg (.text (some log)) = .ok es) :
    es ≠ [] ↔ (slots cfg h).any (filledBy cfg log) = true := by
  obtain ⟨all, hall, rfl⟩ := (step1_spec hheader).of_ok hes
  clear hes
  generalize slots cfg h = ss at hall
  induction hall with
  | nil => simp
  | cons hfilled hrest ih =>
    rw [List.filter_cons, List.any_cons, ← hfilled.complete]
    split
    · simp_all
    · simp_all

end step

/-! ### Members that wait for the second step -/

structure SameGids (out e : LogEntry) : Prop where
  vertexGid : e.vertexGid = out.vertexGid
  srcGid : e.srcGid = out.srcGid
  dstGid : e.dstGid = out.dstGid

section gids
variable {cfg : ParserConfig} {log : Json} {out : LogEntry}

theorem fillEntry_gids {h : Header} {label : String} :
    Ensures (fillEntry cfg h label log out) (SameGids out) Stops := by
  have hsplit : ∀ e : LogEntry, SameGids e e.splitUpdate := by
    intro e
    unfold LogEntry.splitUpdate
    split
    · split <;> exact ⟨rfl, rfl, rfl⟩
    · exact ⟨rfl, rfl, rfl⟩
  unfold fillEntry
  dsimp only
  generalize hstart : LogEntry.splitUpdate _ = start
  have hout : SameGids out start := by
    rw [← hstart]
    have hsame := hsplit { out with
      entityType := if cfg.mapping.isVertexLabel label then .vertex else .edge, opType := h.opType
      txId := h.txId, snapshot := h.snapshot }
    exact ⟨hsame.vertexGid, hsame.srcGid, hsame.dstGid⟩
  have hprop : ∀ e : LogEntry, SameGids out e →
      Ensures (if e.opType ≠ .delete ∧ e.complete = true then fillProp cfg label log e else pure e)
        (SameGids out) Stops := by
    intro e he
    split
    · refine fillProp_spec.imp ?_
      rintro _ ⟨properties, rfl⟩
      exact ⟨he.vertexGid, he.srcGid, he.dstGid⟩
    · exact he
  split
  · refine Ensures.bind fillVertex_spec ?_
    rintro e ⟨value, rfl⟩
    exact hprop _ ⟨hout.vertexGid, hout.srcGid, hout.dstGid⟩
  · refine Ensures.bind fillEdge_spec ?_
    rintro e (⟨-, ends, rfl⟩ | ⟨-, ends, src, dst, rfl⟩)
    · exact hprop _ ⟨hout.vertexGid, hout.srcGid, hout.dstGid⟩
    · exact hprop _ ⟨hout.vertexGid, hout.srcGid, hout.dstGid⟩

theorem parse_gids : Ensures (parse cfg out log) (SameGids out) Stops := by
  unfold parse
  dsimp only
  cases header cfg log with
  | error f => trivial
  | ok r =>
    cases r with
    | none => exact ⟨rfl, rfl, rfl⟩
    | some h =>
      dsimp only [bind, Except.bind]
      cases h.labels[out.reset.tableIdx]? with
      | none => trivial
      | some label =>
        refine Ensures.bind (@fillEntry_gids cfg log out.reset h label) ?_
        intro e he
        have hnext : SameGids e (e.nextLabel h.labels.length) := by
          unfold LogEntry.nextLabel
          generalize (if e.updateHasFinishDelete then e.tableIdx else e.tableIdx + 1) = idx
          dsimp only
          split <;> exact ⟨rfl, rfl, rfl⟩
        exact ⟨hnext.vertexGid.trans he.vertexGid, hnext.srcGid.trans he.srcGid,
          hnext.dstGid.trans he.dstGid⟩

theorem expand_gids {n : Nat} :
    Ensures (expand cfg log n out) (fun es => ∀ e ∈ es, SameGids out e) Stops := by
  have hpushed : ∀ out : LogEntry, ∀ e ∈ out.pushed, SameGids out e := by
    intro out e he
    unfold LogEntry.pushed at he
    split at he
    · rw [List.mem_singleton.mp he]
      exact ⟨rfl, rfl, rfl⟩
    · cases he
  induction n generalizing out with
  | zero => exact hpushed out
  | succ n ih =>
    unfold expand
    split
    · refine Ensures.bind parse_gids ?_
      intro next hnext
      refine Ensures.bind ih ?_
      intro rest hrest e he
      rcases List.mem_append.mp he with hin | hin
      · exact hpushed out e hin
      · have hlater := hrest e hin
        exact ⟨hlater.vertexGid.trans hnext.vertexGid, hlater.srcGid.trans hnext.srcGid,
          hlater.dstGid.trans hnext.dstGid⟩
    · exact hpushed out

theorem step1_gids {line : Line} {es : List LogEntry} (hes : processBinlogStep1 cfg line = .ok es) :
    ∀ e ∈ es, SameGids {} e := by
  cases line with
  | noMessage =>
    cases hes
    exact fun e he => (List.not_mem_nil he).elim
  | text log =>
    cases log with
    | none => cases hes
    | some log =>
      obtain ⟨out, hout, hes⟩ := bind_eq_ok hes
      split at hes
      · have hfirst := parse_gids.of_ok hout
        intro e he
        have hlater := expand_gids.of_ok hes e he
        exact ⟨hlater.vertexGid.trans hfirst.vertexGid, hlater.srcGid.trans hfirst.srcGid,
          hlater.dstGid.trans hfirst.dstGid⟩
      · cases hes
        exact fun e he => (List.not_mem_nil he).elim

end gids

end Gart.Converter
