import Gart.Converter.UnifiedLog

/-!
# Reading the unified log

The store splits a line at the delimiters, takes the operation and the epoch off
the front and the offset off the end, and hands the rest to the operation. A
delimiter inside a value shifts all that follows it.
-/

namespace Gart.Store
open Gart.Converter Gart.Decimal

/-- `splitString` (`bench_runner.cc:45-63`) -/
def splitString (str : String) (delimiter : Char) : List String :=
  (str.toList.splitOn delimiter).map String.ofList

/-- The fields of a vertex operation: of a deletion the first two are read, of an update all but
the external id. -/
structure VertexCmd where
  writeEpoch : Int
  vid : Nat
  externalId : String
  props : List String
  deriving DecidableEq

/-- The fields of an edge operation, of which a deletion reads the first four. -/
structure EdgeCmd where
  writeEpoch : Int
  elabel : Int
  srcVid : Nat
  dstVid : Nat
  srcExternalId : String
  dstExternalId : String
  eprop : List String
  deriving DecidableEq

inductive Record
  | bulkloadEnd (curEpoch : Int)
  | addVertex (cmd : VertexCmd)
  | updateVertex (cmd : VertexCmd)
  | deleteVertex (cmd : VertexCmd)
  | addEdge (cmd : EdgeCmd)
  | deleteEdge (cmd : EdgeCmd)
  | unsupported (op : String)
  deriving DecidableEq

def readVertexCmd (cmd : List String) : Except Fault VertexCmd :=
  match cmd with
  | epoch :: vid :: externalId :: props => do
    return ⟨← stoi epoch, toUInt64 (← stoll vid), externalId, props⟩
  | _ => .error .undefined

def readEdgeCmd (cmd : List String) : Except Fault EdgeCmd :=
  match cmd with
  | epoch :: elabel :: srcVid :: dstVid :: srcExternalId :: dstExternalId :: eprop => do
    return ⟨← stoi epoch, ← stoi elabel, toUInt64 (← stoll srcVid), toUInt64 (← stoll dstVid),
      srcExternalId, dstExternalId, eprop⟩
  | _ => .error .undefined

/-- The operation that `apply_log_to_store_` calls for a command (`bench_runner.cc:729-742`). -/
def dispatch (op : String) (cmd : List String) : Except Fault Record :=
  if op = "add_vertex" then return .addVertex (← readVertexCmd cmd)
  else if op = "add_edge" then return .addEdge (← readEdgeCmd cmd)
  else if op = "delete_vertex" then return .deleteVertex (← readVertexCmd cmd)
  else if op = "delete_edge" then return .deleteEdge (← readEdgeCmd cmd)
  else if op = "update_vertex" then return .updateVertex (← readVertexCmd cmd)
  else return .unsupported op

/-- `apply_log_to_store_` up to the call of the operation (`bench_runner.cc:566-743`) -/
def readLog (log : String) : Except Fault Record :=
  match splitString log '|' with
  | op :: epoch :: rest => do
    let curEpoch ← stoi epoch
    if op = "bulkload_end" then
      return .bulkloadEnd curEpoch
    else
      -- the last field is the offset of the line
      dispatch op (epoch :: rest).dropLast
  | _ => .error .undefined

/-! ### What an entry stands for -/

def freeTexts (e : LogEntry) : List String :=
  match e.entityType with
  | .vertex => e.externalId :: e.properties
  | .edge => e.srcExternalId :: e.dstExternalId :: e.properties

def vertexRecord (op : OpType) (cmd : VertexCmd) : Record :=
  match op with
  | .insert => .addVertex cmd
  | .update => .updateVertex cmd
  | .delete => .deleteVertex cmd
  | .bulkloadEnd => .bulkloadEnd cmd.writeEpoch
  | .unknown => .unsupported "unknown_vertex"

def edgeRecord (op : OpType) (cmd : EdgeCmd) : Record :=
  match op with
  | .insert => .addEdge cmd
  | .update => .unsupported "update_edge"
  | .delete => .deleteEdge cmd
  | .bulkloadEnd => .bulkloadEnd cmd.writeEpoch
  | .unknown => .unsupported "unknown_edge"

/-- The record of an entry, with `texts` for its external ids and property values. -/
def recordWith (e : LogEntry) (texts : List String) : Record :=
  match e.entityType with
  | .vertex => vertexRecord e.opType
      ⟨e.epoch, toUInt64 (e.vertexGid.getD 0), texts.headD "", texts.drop 1⟩
  | .edge => edgeRecord e.opType
      ⟨e.epoch, e.elabel, toUInt64 (e.srcGid.getD 0), toUInt64 (e.dstGid.getD 0), texts.headD "",
        (texts.drop 1).headD "", texts.drop 2⟩

def recordOf (e : LogEntry) : Record := recordWith e (freeTexts e)

/-- An entry that the second step hands on with its gids set: an update is one of a vertex. -/
structure Printable (e : LogEntry) : Prop where
  op : e.opType = .insert ∨ e.opType = .delete ∨ e.opType = .update ∧ e.entityType = .vertex
  epoch : InRange 32 e.epoch
  elabel : e.elabel < 2 ^ 31
  vertex : e.entityType = .vertex → ∃ gid : Nat, e.vertexGid = some (gid : Int) ∧ gid < 2 ^ 63
  edge : e.entityType = .edge → ∃ src dst : Int, e.srcGid = some src ∧ e.dstGid = some dst ∧
    InRange 64 src ∧ InRange 64 dst

section reading
variable {unset offset : Int} {e : LogEntry}

def splitAll (texts : List String) : List String := texts.flatMap fun text => splitString text '|'

theorem splitString_ne_nil (text : String) : splitString text '|' ≠ [] := by
  unfold splitString
  simp [List.splitOn_ne_nil]

theorem splitString_of_not_mem {text : String} (h : '|' ∉ text.toList) :
    splitString text '|' = [text] := by
  unfold splitString
  rw [List.splitOn_eq_singleton h]
  simp

theorem splitString_length {text : String} (h : '|' ∈ text.toList) :
    2 ≤ (splitString text '|').length := by
  obtain ⟨before, after, hsplit⟩ := List.append_of_mem h
  unfold splitString
  rw [hsplit, List.splitOn_append_cons_self, List.length_map, List.length_append]
  have hbefore := List.length_pos_of_ne_nil (List.splitOn_ne_nil '|' before)
  have hafter := List.length_pos_of_ne_nil (List.splitOn_ne_nil '|' after)
  omega

theorem splitAll_cons (text : String) (texts : List String) :
    splitAll (text :: texts) = splitString text '|' ++ splitAll texts := rfl

theorem length_le_splitAll (texts : List String) : texts.length ≤ (splitAll texts).length := by
  induction texts with
  | nil => exact Nat.le_refl _
  | cons text rest ih =>
    have hpos := List.length_pos_of_ne_nil (splitString_ne_nil text)
    rw [splitAll_cons, List.length_append, List.length_cons]
    omega

theorem splitAll_eq_self (texts : List String) :
    splitAll texts = texts ↔ ∀ text ∈ texts, '|' ∉ text.toList := by
  induction texts with
  | nil => simp [splitAll]
  | cons text rest ih =>
    rw [splitAll_cons, List.forall_mem_cons]
    constructor
    · intro h
      have hnot : '|' ∉ text.toList := by
        intro hmem
        have hlength := congrArg List.length h
        rw [List.length_append, List.length_cons] at hlength
        have htwo := splitString_length hmem
        have hle := length_le_splitAll rest
        omega
      rw [splitString_of_not_mem hnot] at h
      exact ⟨hnot, ih.mp (List.cons.inj h).2⟩
    · intro ⟨hnot, hrest⟩
      rw [splitString_of_not_mem hnot, ih.mpr hrest]
      rfl

theorem splitString_int (n : Int) : splitString (toString n) '|' = [toString n] := by
  unfold splitString
  rw [splitOn_int]
  simp

theorem splitString_nat (n : Nat) : splitString (toString n) '|' = [toString n] :=
  splitString_int n

theorem splitString_toText : splitString (e.toText unset offset) '|' =
    e.opName :: toString e.epoch :: (splitAll (e.bodyTexts unset) ++ [toString offset]) := by
  unfold splitString
  rw [splitOn_toText]
  simp [splitAll, splitString, List.map_flatMap]

theorem readLog_toText (hop : e.opType ≠ .bulkloadEnd) (hepoch : InRange 32 e.epoch) :
    readLog (e.toText unset offset) =
      dispatch e.opName (toString e.epoch :: splitAll (e.idTexts unset ++ e.properties)) := by
  have hname : e.opName ≠ "bulkload_end" := by
    unfold LogEntry.opName
    cases hkind : e.opType <;> cases e.entityType <;> simp_all <;> decide
  have hbody : e.bodyTexts unset = e.idTexts unset ++ e.properties := if_neg hop
  unfold readLog
  rw [splitString_toText, hbody]
  dsimp only
  rw [stoi_toString hepoch]
  show (if e.opName = "bulkload_end" then _ else _) = _
  rw [if_neg hname, ← List.cons_append, List.dropLast_concat]

theorem toUInt64_natCast {n : Nat} (h : n < 2 ^ 63) : toUInt64 n = n := by
  unfold toUInt64
  rw [Int.emod_eq_of_lt (Int.natCast_nonneg n) (by omega)]
  exact Int.toNat_natCast n

theorem stoll_gid {n : Nat} (h : n < 2 ^ 63) : stoll (toString n) = .ok (n : Int) := by
  have hrange : InRange 64 (n : Int) := by
    unfold InRange
    omega
  have hread := stoll_toString hrange
  exact hread

theorem stoi_elabel {n : Nat} (h : n < 2 ^ 31) : stoi (toString n) = .ok (n : Int) := by
  have hrange : InRange 32 (n : Int) := by
    unfold InRange
    omega
  have hread := stoi_toString hrange
  exact hread

theorem splitAll_ne_nil (text : String) (texts : List String) : splitAll (text :: texts) ≠ [] := by
  rw [splitAll_cons]
  exact List.append_ne_nil_of_left_ne_nil (splitString_ne_nil text) _

theorem readVertexCmd_toText (h : Printable e) (hvertex : e.entityType = .vertex) :
    readVertexCmd (toString e.epoch :: splitAll (e.idTexts unset ++ e.properties)) =
      .ok ⟨e.epoch, toUInt64 (e.vertexGid.getD 0), (splitAll (freeTexts e)).headD "",
        (splitAll (freeTexts e)).drop 1⟩ := by
  obtain ⟨gid, hgid, hlt⟩ := h.vertex hvertex
  have hfree : freeTexts e = e.externalId :: e.properties := by
    unfold freeTexts
    rw [hvertex]
  have hids : e.idTexts unset ++ e.properties = toString gid :: freeTexts e := by
    unfold LogEntry.idTexts
    rw [hvertex, hgid, hfree]
    show toString (toUInt64 gid) :: _ = _
    rw [toUInt64_natCast hlt]
    rfl
  rw [hids, splitAll_cons, splitString_nat, hgid]
  cases htexts : splitAll (freeTexts e) with
  | nil =>
    rw [hfree] at htexts
    exact absurd htexts (splitAll_ne_nil _ _)
  | cons text texts =>
    unfold readVertexCmd
    simp only [List.cons_append, List.nil_append, stoi_toString h.epoch, stoll_gid hlt, bind, Except.bind,
      pure, Except.pure, Option.getD_some, List.headD_cons, List.drop_succ_cons, List.drop_zero]

theorem readEdgeCmd_toText (h : Printable e) (hedge : e.entityType = .edge) :
    readEdgeCmd (toString e.epoch :: splitAll (e.idTexts unset ++ e.properties)) =
      .ok ⟨e.epoch, e.elabel, toUInt64 (e.srcGid.getD 0), toUInt64 (e.dstGid.getD 0),
        (splitAll (freeTexts e)).headD "", ((splitAll (freeTexts e)).drop 1).headD "",
        (splitAll (freeTexts e)).drop 2⟩ := by
  obtain ⟨src, dst, hsrc, hdst, hsrcRange, hdstRange⟩ := h.edge hedge
  have hfree : freeTexts e = e.srcExternalId :: e.dstExternalId :: e.properties := by
    unfold freeTexts
    rw [hedge]
  have hids : e.idTexts unset ++ e.properties =
      toString e.elabel :: toString src :: toString dst :: freeTexts e := by
    unfold LogEntry.idTexts
    rw [hedge, hsrc, hdst, hfree]
    rfl
  rw [hids, splitAll_cons, splitAll_cons, splitAll_cons, splitString_nat, splitString_int,
    splitString_int, hsrc, hdst]
  have hlength := length_le_splitAll (freeTexts e)
  rw [hfree, List.length_cons, List.length_cons, ← hfree] at hlength
  match htexts : splitAll (freeTexts e) with
  | [] =>
    rw [htexts, List.length_nil] at hlength
    omega
  | [text] =>
    rw [htexts, List.length_singleton] at hlength
    omega
  | src' :: dst' :: texts =>
    unfold readEdgeCmd
    simp only [List.cons_append, List.nil_append, stoi_toString h.epoch, stoi_elabel h.elabel,
      stoll_toString hsrcRange, stoll_toString hdstRange, bind, Except.bind, pure, Except.pure,
      Option.getD_some, List.headD_cons, List.drop_succ_cons, List.drop_zero]

theorem Printable.not_end (h : Printable e) : e.opType ≠ .bulkloadEnd := by
  rcases h.op with hop | hop | ⟨hop, -⟩ <;> rw [hop] <;> decide

theorem readLog_eq (h : Printable e) :
    readLog (e.toText unset offset) = .ok (recordWith e (splitAll (freeTexts e))) := by
  rw [readLog_toText h.not_end h.epoch]
  unfold dispatch recordWith LogEntry.opName
  cases hentity : e.entityType with
  | vertex =>
    rw [readVertexCmd_toText h hentity]
    rcases h.op with hop | hop | ⟨hop, -⟩ <;> rw [hop] <;> rfl
  | edge =>
    rw [readEdgeCmd_toText h hentity]
    rcases h.op with hop | hop | ⟨-, hvertex⟩
    · rw [hop]
      rfl
    · rw [hop]
      rfl
    · rw [hentity] at hvertex
      cases hvertex

theorem recordWith_inj (h : Printable e) {texts : List String}
    (hlength : (freeTexts e).length ≤ texts.length) :
    recordWith e texts = recordOf e ↔ texts = freeTexts e := by
  constructor
  · intro heq
    unfold recordOf recordWith at heq
    cases hentity : e.entityType with
    | vertex =>
      have hfree : freeTexts e = e.externalId :: e.properties := by
        unfold freeTexts
        rw [hentity]
      rw [hentity, hfree] at heq
      rw [hfree] at hlength ⊢
      match texts with
      | [] => cases hlength
      | text :: rest =>
        rcases h.op with hop | hop | ⟨hop, -⟩ <;> rw [hop] at heq <;> cases heq <;> rfl
    | edge =>
      have hfree : freeTexts e = e.srcExternalId :: e.dstExternalId :: e.properties := by
        unfold freeTexts
        rw [hentity]
      rw [hentity, hfree] at heq
      rw [hfree] at hlength ⊢
      match texts with
      | [] => cases hlength
      | [text] =>
        simp only [List.length_cons, List.length_nil] at hlength
        omega
      | src :: dst :: rest =>
        rcases h.op with hop | hop | ⟨-, hvertex⟩
        · rw [hop] at heq
          cases heq
          rfl
        · rw [hop] at heq
          cases heq
          rfl
        · rw [hentity] at hvertex
          cases hvertex
  · intro heq
    rw [heq]
    rfl

/-- The store reads back the entry of a line exactly when none of its values holds a delimiter.
The offset, and the entry up to its values, are read back in any case. -/
theorem line_roundTrip (h : Printable e) (hoffset : InRange 64 offset) :
    (readLog (e.toText unset offset) = .ok (recordOf e) ↔
        ∀ text ∈ freeTexts e, '|' ∉ text.toList) ∧
      (∃ texts, readLog (e.toText unset offset) = .ok (recordWith e texts)) ∧
      stoll (lastField (e.toText unset offset)) = .ok offset := by
  refine ⟨?_, ⟨_, readLog_eq h⟩, ?_⟩
  · rw [readLog_eq h, Except.ok.injEq, recordWith_inj h (length_le_splitAll _), splitAll_eq_self]
  · rw [lastField_toText]
    exact stoll_toString hoffset

end reading

def namedPerson (name : String) : List Event :=
  atOnce [rowChange "person" "c" "false" (some 7) [("id", .string name)]]

def namedEntry (name : String) : LogEntry :=
  match (run (personConfig {}) 0 (namedPerson name)).emitted with
  | m :: _ => m.entry
  | [] => {}

theorem namedEntry_printable : Printable (namedEntry "a b") :=
  ⟨.inl (by decide +kernel), by decide +kernel, by decide +kernel,
    fun _ => ⟨0, by decide +kernel, by decide⟩, fun h => absurd h (by decide +kernel)⟩

/-- The name holds no delimiter. -/
theorem line_roundTrip_plain :
    (readLog ((namedEntry "a b").toText 0 1) = .ok (recordOf (namedEntry "a b")) ↔
        ∀ text ∈ freeTexts (namedEntry "a b"), '|' ∉ text.toList) ∧
      (∃ texts, readLog ((namedEntry "a b").toText 0 1) =
        .ok (recordWith (namedEntry "a b") texts)) ∧
      stoll (lastField ((namedEntry "a b").toText 0 1)) = .ok 1 :=
  line_roundTrip namedEntry_printable (by decide)

/-- The store takes the part of the name after the delimiter for a property. -/
theorem line_delimiter_in_value :
    (namedEntry "a|b").toText 0 1 = "add_vertex|0|0|a|b|1" ∧
      readLog ((namedEntry "a|b").toText 0 1) = .ok (.addVertex ⟨0, 0, "a", ["b"]⟩) ∧
      recordOf (namedEntry "a|b") = .addVertex ⟨0, 0, "a|b", []⟩ ∧
      readLog ((namedEntry "a|b").toText 0 1) ≠ .ok (recordOf (namedEntry "a|b")) := by
  decide +kernel

end Gart.Store
