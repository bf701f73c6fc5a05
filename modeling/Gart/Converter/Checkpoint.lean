import Gart.Converter.Resolve

/-!
# Checkpoints of the external ids (converter/parser.cc)

`checkpoint_vertex_maps` writes the maps from external ids to gids and `load_vertex_maps_checkpoint` reads them in a new
parser. An archive of a map has the map.
-/

namespace Gart.Converter
open Gart.Outcome Gart.Fragment

/-- `vlabel_num_` -/
def ParserConfig.vlabelNum (cfg : ParserConfig) : Nat := cfg.mapping.vertexTypes.length

/-- The files in a folder for checkpoints, by their labels. -/
structure CheckpointFolder where
  stringMaps : Nat → Option (String → Option Int) := fun _ => none
  intMaps : Nat → Option (Int → Option Int) := fun _ => none
  /-- what `vertex_nums.bin` has, if there is the file -/
  vertexNums : Option (List Nat) := none

/-- The file of a label. `string_oid2gid_maps_` has a map for every label, so it is only empty without labels. -/
def checkpointLabel (cfg : ParserConfig) (ids : IdMaps) (folder : CheckpointFolder) (label : Nat) : CheckpointFolder :=
  if cfg.vlabelNum ≠ 0 then
    { folder with stringMaps := Function.update folder.stringMaps label (some (ids.stringOid2Gid label)) }
  else
    { folder with intMaps := Function.update folder.intMaps label (some (ids.int64Oid2Gid label)) }

/-- `TxnLogParser::checkpoint_vertex_maps` (`parser.cc:596-618`); nothing is written to the file of the counters. -/
def checkpointVertexMaps (cfg : ParserConfig) (ids : IdMaps) (folder : CheckpointFolder) : CheckpointFolder :=
  { (List.range cfg.vlabelNum).foldl (checkpointLabel cfg ids) folder with vertexNums := some [] }

/-- The map of a label, from the file for strings if there is one. -/
def loadLabel (folder : CheckpointFolder) (ids : IdMaps) (label : Nat) : IdMaps :=
  match folder.stringMaps label with
  | some m => { ids with stringOid2Gid := Function.update ids.stringOid2Gid label m }
  | none =>
    match folder.intMaps label with
    | some m => { ids with int64Oid2Gid := Function.update ids.int64Oid2Gid label m }
    | none => ids

/-- `TxnLogParser::load_vertex_maps_checkpoint` (`parser.cc:620-641`) -/
def loadVertexMapsCheckpoint (cfg : ParserConfig) (ids : IdMaps) (folder : CheckpointFolder) : IdMaps :=
  (List.range cfg.vlabelNum).foldl (loadLabel folder) ids

def numberFrom (cfg : ParserConfig) (ids : IdMaps) (es : List (LogEntry × Int)) :
    Except Fault (IdMaps × List LogEntry) :=
  es.foldlM (fun s e => do
    let (ids, out) ← parseAgain cfg s.1 e.1 e.2
    return (ids, s.2 ++ [out])) (ids, [])

/-- A parser goes on as another one would: external ids have their gids, and later entries get the same ones. -/
structure RoundTrip (cfg : ParserConfig) (ids restored : IdMaps) : Prop where
  resolves : ∀ (oid : String) (isStringOid : Bool), ∀ label < cfg.vlabelNum,
    restored.getGid oid isStringOid (label : Nat) = ids.getGid oid isStringOid (label : Nat)
  assigns : ∀ more, (numberFrom cfg restored more).map Prod.snd = (numberFrom cfg ids more).map Prod.snd

def inserted (es : List (LogEntry × Int)) (label : Int) : Nat :=
  es.countP fun e => e.1.entityType = .vertex ∧ e.1.opType = .insert ∧ e.1.vlabel = label

structure InsertOrDelete (cfg : ParserConfig) (e : LogEntry × Int) : Prop where
  vertex : e.1.entityType = .vertex
  op : e.1.opType = .insert ∨ e.1.opType = .delete
  label : 0 ≤ e.1.vlabel ∧ e.1.vlabel < cfg.vlabelNum

/-! ### The files -/

section files
variable {cfg : ParserConfig} {ids ids' : IdMaps} {folder : CheckpointFolder} {label : Nat}

theorem checkpoint_stringMaps (hlabel : label < cfg.vlabelNum) :
    (checkpointVertexMaps cfg ids folder).stringMaps label = some (ids.stringOid2Gid label) := by
  have hrun : ∀ n ≤ cfg.vlabelNum, ∀ label < n,
      ((List.range n).foldl (checkpointLabel cfg ids) folder).stringMaps label = some (ids.stringOid2Gid label) := by
    intro n
    induction n with
    | zero => exact fun _ label h => absurd h (Nat.not_lt_zero label)
    | succ n ih =>
      intro hn label hlt
      rw [List.range_succ, List.foldl_append, List.foldl_cons, List.foldl_nil]
      unfold checkpointLabel
      rw [if_pos (by omega)]
      dsimp only
      by_cases hlast : label = n
      · rw [hlast, Function.update_self]
      · rw [Function.update_of_ne hlast]
        exact ih (by omega) label (by omega)
  exact hrun cfg.vlabelNum (Nat.le_refl _) label hlabel

theorem load_checkpoint (cfg : ParserConfig) (ids : IdMaps) (folder : CheckpointFolder) :
    loadVertexMapsCheckpoint cfg {} (checkpointVertexMaps cfg ids folder) = {
      stringOid2Gid :=
        fun label => if 0 ≤ label ∧ label < cfg.vlabelNum then ids.stringOid2Gid label else fun _ => none } := by
  have hrun : ∀ n ≤ cfg.vlabelNum, (List.range n).foldl (loadLabel (checkpointVertexMaps cfg ids folder)) {} = {
      stringOid2Gid := fun label => if 0 ≤ label ∧ label < n then ids.stringOid2Gid label else fun _ => none } := by
    intro n
    induction n with
    | zero =>
      intro _
      have hnone : (fun label : Int => if 0 ≤ label ∧ label < ((0 : Nat) : Int) then ids.stringOid2Gid label
          else fun _ => none) = fun _ _ => none := by
        funext label
        exact if_neg (by omega)
      rw [hnone]
      rfl
    | succ n ih =>
      intro hn
      rw [List.range_succ, List.foldl_append, List.foldl_cons, List.foldl_nil, ih (by omega)]
      unfold loadLabel
      rw [checkpoint_stringMaps (by omega)]
      dsimp only
      congr 1
      funext label
      by_cases hlast : label = (n : Int)
      · rw [hlast, Function.update_self, if_pos (by omega)]
      · rw [Function.update_of_ne hlast]
        by_cases hin : 0 ≤ label ∧ label < (n : Int)
        · rw [if_pos hin, if_pos (by omega)]
        · rw [if_neg hin, if_neg (by omega)]
  exact hrun cfg.vlabelNum (Nat.le_refl _)

end files

/-! ### Runs -/

section run
variable {cfg : ParserConfig} {ids ids' : IdMaps} {e e' : LogEntry} {es : List (LogEntry × Int)} {out : List LogEntry}

theorem setGid_counters {oid : String} {isStringOid : Bool} {vlabel gid : Int}
    (h : ids.setGid oid isStringOid vlabel gid = .ok ids') :
    ids'.vertexNums = ids.vertexNums ∧ ids'.vertexNumsPerFragment = ids.vertexNumsPerFragment := by
  unfold IdMaps.setGid at h
  cases isStringOid with
  | false =>
    obtain ⟨n, -, h⟩ := bind_eq_ok h
    obtain rfl := Except.ok.inj h
    exact ⟨rfl, rfl⟩
  | true =>
    obtain rfl := Except.ok.inj h
    exact ⟨rfl, rfl⟩

/-- The counters after some inserted vertices of each label. -/
structure Counted (ids : IdMaps) (n : Int → Nat) : Prop where
  nums : ∀ label, ids.vertexNums label = n label
  le : ∀ label fid, ids.vertexNumsPerFragment label fid ≤ n label
  first : ∀ label, 0 < n label → 0 < ids.vertexNumsPerFragment label 0

theorem Counted.resolved {n : Int → Nat} (h : Counted ids n) (hres : Resolved cfg ids e ids' e')
    (hcap : n e.vlabel + 1 < 2 ^ 64) : ¬ e.insertsVertex ∧ ids' = ids ∨
      e.insertsVertex ∧ Counted ids' (Function.update n e.vlabel (n e.vlabel + 1)) := by
  cases hres with
  | assigned hinsert hset =>
    right
    obtain ⟨hnums, hper⟩ := setGid_counters hset
    have hle := h.le e.vlabel (ids.vertexNums e.vlabel % cfg.subgraphNum)
    refine ⟨hinsert, fun label => ?_, fun label fid => ?_, fun label hpos => ?_⟩
    · rw [hnums]
      show (if label = e.vlabel then (ids.vertexNums label + 1) % 2 ^ 64 else ids.vertexNums label) = _
      by_cases hlabel : label = e.vlabel
      · rw [if_pos hlabel, hlabel, Function.update_self, h.nums, Nat.mod_eq_of_lt hcap]
      · rw [if_neg hlabel, Function.update_of_ne hlabel]
        exact h.nums label
    · rw [hper]
      show (if label = e.vlabel ∧ fid = ids.vertexNums e.vlabel % cfg.subgraphNum then
        (ids.vertexNumsPerFragment label fid + 1) % 2 ^ 64 else ids.vertexNumsPerFragment label fid) ≤ _
      by_cases hlabel : label = e.vlabel
      · rw [hlabel, Function.update_self]
        have hfid := h.le e.vlabel fid
        by_cases hturn : e.vlabel = e.vlabel ∧ fid = ids.vertexNums e.vlabel % cfg.subgraphNum
        · rw [if_pos hturn, Nat.mod_eq_of_lt (by omega)]
          omega
        · rw [if_neg hturn]
          omega
      · rw [if_neg (fun hturn => hlabel hturn.1), Function.update_of_ne hlabel]
        exact h.le label fid
    · rw [hper]
      show 0 < if label = e.vlabel ∧ 0 = ids.vertexNums e.vlabel % cfg.subgraphNum then
        (ids.vertexNumsPerFragment label 0 + 1) % 2 ^ 64 else ids.vertexNumsPerFragment label 0
      by_cases hlabel : label = e.vlabel
      · subst hlabel
        have hfid := h.le e.vlabel 0
        by_cases hturn : e.vlabel = e.vlabel ∧ 0 = ids.vertexNums e.vlabel % cfg.subgraphNum
        · rw [if_pos hturn, Nat.mod_eq_of_lt (by omega)]
          omega
        · rw [if_neg hturn]
          -- the first vertex went to the fragment 0
          refine h.first e.vlabel (Nat.pos_of_ne_zero fun hzero => hturn ⟨rfl, ?_⟩)
          rw [h.nums, hzero, Nat.zero_mod]
      · rw [if_neg (fun hturn => hlabel hturn.1)]
        rw [Function.update_of_ne hlabel] at hpos
        exact h.first label hpos
  | vertex hkind | unknownVertex hkind => exact .inl ⟨not_insertsVertex_of_refers hkind, rfl⟩
  | edge hedge | unknownEdge hedge => exact .inl ⟨not_insertsVertex_of_edge hedge, rfl⟩
  | other _ hop =>
    left
    refine ⟨fun hinsert => ?_, rfl⟩
    rcases hop with hop | hop <;> rw [hinsert.2] at hop <;> cases hop

theorem inserted_cons (e : LogEntry × Int) (es : List (LogEntry × Int)) (label : Int) : inserted (e :: es) label =
    inserted es label + if e.1.insertsVertex ∧ e.1.vlabel = label then 1 else 0 := by
  unfold inserted LogEntry.insertsVertex
  rw [List.countP_cons]
  simp only [decide_eq_true_eq, and_assoc]

theorem Counted.run {n : Int → Nat} {s s' : IdMaps × List LogEntry} (h : Counted s.1 n)
    (hcap : ∀ label, n label + inserted es label < 2 ^ 64)
    (hok : es.foldlM (fun s e => do
      let (ids, out) ← parseAgain cfg s.1 e.1 e.2
      return (ids, s.2 ++ [out])) s = .ok s') :
    Counted s'.1 (fun label => n label + inserted es label) ∧ ((∀ e ∈ es, ¬ e.1.insertsVertex) → s'.1 = s.1) := by
  induction es generalizing s n with
  | nil =>
    obtain rfl := Except.ok.inj hok
    exact ⟨h, fun _ => rfl⟩
  | cons e es ih =>
    rw [List.foldlM_cons] at hok
    obtain ⟨s₁, hstep, hok⟩ := bind_eq_ok hok
    obtain ⟨⟨ids, out⟩, hparse, hstep⟩ := bind_eq_ok hstep
    obtain rfl := Except.ok.inj hstep
    have hres := resolve_spec.of_ok hparse
    have hhere := hcap e.1.vlabel
    rw [inserted_cons] at hhere
    by_cases hinsert : e.1.insertsVertex
    · rw [if_pos ⟨hinsert, rfl⟩] at hhere
      obtain ⟨hno, -⟩ | ⟨-, hcounted⟩ := h.resolved hres (show n e.1.vlabel + 1 < 2 ^ 64 by omega)
      · exact absurd hinsert hno
      · have hsum : ∀ label, Function.update n e.1.vlabel (n e.1.vlabel + 1) label + inserted es label =
            n label + inserted (e :: es) label := by
          intro label
          rw [inserted_cons]
          by_cases hlabel : label = e.1.vlabel
          · rw [hlabel, Function.update_self, if_pos ⟨hinsert, rfl⟩]
            omega
          · rw [Function.update_of_ne hlabel, if_neg fun hboth => hlabel hboth.2.symm]
            omega
        obtain ⟨hrun, -⟩ := ih (s := (ids, s.2 ++ [out])) hcounted (fun label => by rw [hsum]; exact hcap label) hok
        have hfun : (fun label => Function.update n e.1.vlabel (n e.1.vlabel + 1) label + inserted es label) =
            fun label => n label + inserted (e :: es) label := funext hsum
        have hrun : Counted s'.1 fun label => Function.update n e.1.vlabel (n e.1.vlabel + 1) label +
            inserted es label := hrun
        rw [hfun] at hrun
        exact ⟨hrun, fun hnone => absurd hinsert (hnone e List.mem_cons_self)⟩
    · have hids : ids = s.1 := by
        cases hres with
        | assigned hkind => exact absurd (And.intro hkind.1 hkind.2) hinsert
        | vertex | unknownVertex | edge | unknownEdge | other => rfl
      subst hids
      have hsum : ∀ label, inserted (e :: es) label = inserted es label := by
        intro label
        rw [inserted_cons, if_neg fun hboth => hinsert hboth.1]
        rfl
      obtain ⟨hrun, hsame⟩ := ih (s := (s.1, s.2 ++ [out])) h (fun label => by
        rw [← hsum]
        exact hcap label) hok
      have hfun : (fun label => n label + inserted es label) = fun label => n label + inserted (e :: es) label :=
        funext fun label => by rw [hsum]
      rw [hfun] at hrun
      exact ⟨hrun, fun hnone => hsame fun e' he' => hnone e' (List.mem_cons_of_mem _ he')⟩

theorem subgraphNum_ne_zero {s s' : IdMaps × List LogEntry}
    (hok : es.foldlM (fun s e => do
      let (ids, out) ← parseAgain cfg s.1 e.1 e.2
      return (ids, s.2 ++ [out])) s = .ok s') : ∀ e ∈ es, e.1.insertsVertex → cfg.subgraphNum ≠ 0 := by
  induction es generalizing s with
  | nil => exact fun e he => by cases he
  | cons e es ih =>
    rw [List.foldlM_cons] at hok
    obtain ⟨s₁, hstep, hok⟩ := bind_eq_ok hok
    obtain ⟨⟨ids, out⟩, hparse, -⟩ := bind_eq_ok hstep
    intro e' he' hinsert
    rcases List.mem_cons.mp he' with rfl | he'
    · unfold parseAgain resolve at hparse
      dsimp only at hparse
      rw [hinsert.1, hinsert.2] at hparse
      dsimp only at hparse
      unfold assignGid at hparse
      intro hzero
      rw [if_pos hzero] at hparse
      cases hparse
    · exact ih hok e' he' hinsert

def insertString (label : Nat) : LogEntry × Int :=
  ({ opType := .insert, externalId := "v", isStringOid := true, vlabel := label }, 0)

theorem numberFrom_insertString (hpos : cfg.subgraphNum ≠ 0) (ids : IdMaps) (label : Nat) :
    (numberFrom cfg ids [insertString label]).map Prod.snd =
      .ok [{ (insertString label).1 with vertexGid := some (nextGid cfg ids label) }] := by
  unfold numberFrom parseAgain resolve insertString
  dsimp only [List.foldlM]
  unfold assignGid
  rw [if_neg hpos]
  rfl

/-- A parser that has counted vertices of a label does not give the next one the first gid of the label. -/
theorem nextGid_ne_first {n : Int → Nat} (h : Counted ids n) (hpos : cfg.subgraphNum ≠ 0)
    (hnum : cfg.subgraphNum < 2 ^ 31) {label : Nat} (hcap : n label < 2 ^ (IdParser.init cfg.subgraphNum).offsetWidth)
    (hsome : 0 < n label) (restored : IdMaps) (hnums : restored.vertexNums label = 0)
    (hper : restored.vertexNumsPerFragment label 0 = 0) : nextGid cfg restored label ≠ nextGid cfg ids label := by
  have hwidth : numToBitwidth cfg.subgraphNum ≤ 31 := IdParser.numToBitwidth_le (by decide) (Nat.le_of_lt hnum)
  intro heq
  unfold nextGid at heq
  dsimp only at heq
  rw [hnums, Nat.zero_mod, hper] at heq
  have hgid := Int.ofNat_inj.mp heq
  have hle := h.le label (ids.vertexNums label % cfg.subgraphNum)
  have hlt : ids.vertexNums label % cfg.subgraphNum < 2 ^ numToBitwidth cfg.subgraphNum :=
    IdParser.lt_two_pow_numToBitwidth (Nat.mod_lt _ (Nat.pos_of_ne_zero hpos))
  rw [IdParser.offsetWidth_eq (by omega)] at hcap
  have hfid := congrArg (IdParser.init cfg.subgraphNum).getFid hgid
  rw [IdParser.getFid_generateId (by omega) (Nat.two_pow_pos _), IdParser.getFid_generateId (by omega) hlt] at hfid
  have hoffset := congrArg (IdParser.init cfg.subgraphNum).getOffset hgid
  rw [IdParser.getOffset_generateId (by omega) (Nat.two_pow_pos _), IdParser.getOffset_generateId (by omega) (by omega),
    ← hfid] at hoffset
  have hfirst := h.first label hsome
  omega

/-- A checkpoint is loaded as it was if and only if no vertex had been inserted: the maps of integer ids and the
counters are not in it. Fewer than `2^offset_width` vertices of a label are inserted, as many as have gids. -/
theorem roundTrip_iff (cfg : ParserConfig) (folder : CheckpointFolder) (es : List (LogEntry × Int)) (ids : IdMaps)
    (out : List LogEntry) (hnum : cfg.subgraphNum < 2 ^ 31) (hes : ∀ e ∈ es, InsertOrDelete cfg e)
    (hcap : ∀ label, inserted es label < 2 ^ (IdParser.init cfg.subgraphNum).offsetWidth)
    (hrun : numberFrom cfg {} es = .ok (ids, out)) :
    RoundTrip cfg ids (loadVertexMapsCheckpoint cfg {} (checkpointVertexMaps cfg ids folder)) ↔
      ∀ e ∈ es, ¬ e.1.insertsVertex := by
  have hstart : Counted {} fun _ => 0 := ⟨fun _ => rfl, fun _ _ => Nat.le_refl 0, fun _ h => h⟩
  have hwidth : numToBitwidth cfg.subgraphNum ≤ 31 := IdParser.numToBitwidth_le (by decide) (Nat.le_of_lt hnum)
  have hpow : 2 ^ (IdParser.init cfg.subgraphNum).offsetWidth ≤ 2 ^ 56 := by
    rw [IdParser.offsetWidth_eq (by omega)]
    exact Nat.pow_le_pow_right (by decide) (Nat.sub_le _ _)
  obtain ⟨hcounted, hsame⟩ := hstart.run (s := ({}, [])) (fun label => by
    have hlt := hcap label
    omega) hrun
  rw [load_checkpoint]
  constructor
  · intro hround e he hinsert
    obtain ⟨label, hlabel⟩ := Int.eq_ofNat_of_zero_le (hes e he).label.1
    have hsome : 0 < inserted es label := by
      refine List.countP_pos_iff.mpr ⟨e, he, ?_⟩
      rw [decide_eq_true_iff]
      exact ⟨hinsert.1, hinsert.2, hlabel⟩
    have hpos : cfg.subgraphNum ≠ 0 := subgraphNum_ne_zero hrun e he hinsert
    have hnext := hround.assigns [insertString label]
    rw [numberFrom_insertString hpos, numberFrom_insertString hpos] at hnext
    have hgids := congrArg (fun es : List LogEntry => es.map LogEntry.vertexGid) (Except.ok.inj hnext)
    simp only [List.map_cons, List.map_nil, List.cons.injEq, and_true, Option.some.injEq] at hgids
    exact nextGid_ne_first hcounted hpos hnum (by simpa using hcap label) (by simpa using hsome) _ rfl rfl hgids
  · intro hnone
    obtain rfl : ids = {} := hsame hnone
    have hempty : ({ stringOid2Gid := fun label => if 0 ≤ label ∧ label < (cfg.vlabelNum : Int) then
        ({} : IdMaps).stringOid2Gid label else fun _ => none } : IdMaps) = {} := by
      congr 1
      funext label
      exact ite_self _
    rw [hempty]
    exact ⟨fun _ _ _ _ => rfl, fun _ => rfl⟩

end run

def personIds : ParserConfig :=
  { build := .debezium
    mapping := {
      vertexTypes := [{ dataSourceName := "person", typeName := "person", idFieldName := "id", mappings := [] }]
      edgeTypes := []
      known := by simp }
    subgraphNum := 2 }

def insertSeven : List (LogEntry × Int) := [({ opType := .insert, externalId := "7", vlabel := 0 }, 1)]

theorem roundTrip_iff_insertSeven : ∃ ids out, numberFrom personIds {} insertSeven = .ok (ids, out) ∧
    (RoundTrip personIds ids (loadVertexMapsCheckpoint personIds {} (checkpointVertexMaps personIds ids {})) ↔
      ∀ e ∈ insertSeven, ¬ e.1.insertsVertex) := by
  have hsome : (numberFrom personIds {} insertSeven).toOption.isSome = true := by decide +kernel
  obtain ⟨⟨ids, out⟩, hrun⟩ := Option.isSome_iff_exists.mp hsome
  refine ⟨ids, out, ok_of_toOption hrun, roundTrip_iff personIds {} insertSeven ids out (by decide) ?_ ?_
    (ok_of_toOption hrun)⟩
  · intro e he
    obtain rfl := List.mem_singleton.mp he
    exact ⟨rfl, .inl rfl, by decide⟩
  · intro label
    have hle : inserted insertSeven label ≤ 1 := List.countP_le_length
    exact Nat.lt_of_le_of_lt hle (by decide)

/-- The restored parser does not know the vertex 7, and gives its gid to the next vertex. -/
theorem lost_insertSeven : ∃ ids out, numberFrom personIds {} insertSeven = .ok (ids, out) ∧
    ¬ RoundTrip personIds ids (loadVertexMapsCheckpoint personIds {} (checkpointVertexMaps personIds ids {})) := by
  have hgids : ((numberFrom personIds {} insertSeven).toOption.bind fun r =>
      (r.1.getGid "7" false 0).toOption.bind fun before => (IdMaps.getGid (loadVertexMapsCheckpoint personIds {}
        (checkpointVertexMaps personIds r.1 {})) "7" false 0).toOption.map fun after => (before, after)) =
          some (0, -1) := by decide +kernel
  obtain ⟨⟨ids, out⟩, hrun, hgids⟩ := Option.bind_eq_some_iff.mp hgids
  obtain ⟨before, hbefore, hgids⟩ := Option.bind_eq_some_iff.mp hgids
  obtain ⟨after, hafter, hgids⟩ := Option.map_eq_some_iff.mp hgids
  obtain ⟨rfl, rfl⟩ := Prod.mk.inj hgids
  refine ⟨ids, out, ok_of_toOption hrun, fun hround => ?_⟩
  have hsame := hround.resolves "7" false 0 (by decide)
  change IdMaps.getGid _ "7" false 0 = ids.getGid "7" false 0 at hsame
  rw [ok_of_toOption hbefore, ok_of_toOption hafter] at hsame
  cases hsame

end Gart.Converter
