import Gart.Fragment.TableReader
import Gart.Store.ListGraph

/-!
# Adding and deleting edges

The lists of the inner vertices of a partition in a run that adds and deletes edges between them. A deletion searches
the list of each end for the newest entry with the offset of the other, and does not ask whether a marker is for it
already.
-/

namespace Gart.Store
open Gart.ByteMemory Gart.Outcome Gart.Fragment Gart.Seggraph Gart.MarkerLog

/-! ### The records of a list -/

def innerLid (parser : IdParser) (gid : Nat) : Nat :=
  parser.generateId 0 (parser.getLabelId gid) (parser.getOffset gid)

def opOn (k : Partition) (vlabel v e : Nat) (d : Dir) : Record → Option (ListOp Nat)
  | .addEdge cmd =>
    if OnVertex k vlabel v e d cmd.toRecord then some (.add (innerLid k.parser (cmd.toRecord.other d))) else none
  | .deleteEdge cmd =>
    if OnVertex k vlabel v e d cmd.toRecord then some (.del (innerLid k.parser (cmd.toRecord.other d))) else none
  | _ => none

def opsOn (k : Partition) (vlabel v e : Nat) (d : Dir) (log : List Record) : List (ListOp Nat) :=
  log.filterMap (opOn k vlabel v e d)

def opsAt (k : Partition) (r : GraphStore.EdgeRecord) (d : Dir) (log : List Record) : List (ListOp Nat) :=
  opsOn k (k.parser.getLabelId (r.vid d)) (k.parser.getOffset (r.vid d)) r.elabel d log

/-- The copies of an edge after a record with an epoch up to `t`. -/
def copiesStep (t src dst elabel n : Nat) : Record → Nat
  | .addEdge cmd =>
    if cmd.srcVid = src ∧ cmd.dstVid = dst ∧ cmd.elabel.toNat = elabel ∧ cmd.writeEpoch.toNat ≤ t then n + 1 else n
  | .deleteEdge cmd =>
    if cmd.srcVid = src ∧ cmd.dstVid = dst ∧ cmd.elabel.toNat = elabel ∧ cmd.writeEpoch.toNat ≤ t then n - 1 else n
  | _ => n

/-- The copies of an edge in a multiset to which the records up to an epoch add and from which they delete. -/
def copies (t src dst elabel : Nat) (log : List Record) : Nat := log.foldl (copiesStep t src dst elabel) 0

/-! ### What a record needs -/

def EndFits (slot : Nat → Nat) (s : GraphStore) (r : GraphStore.EdgeRecord) (d : Dir) (size : Nat) : Prop :=
  ∀ l ∈ s.labels[s.idParser.getLabelId (r.vid d)]?,
    PutFits slot l.graph (s.idParser.getOffset (r.vid d)) r.elabel d size

/-- A deletion finds nothing in the list of an end; or it finds the edge itself, which is not deleted, and its marker
fits. -/
def DeleteOk (k : Partition) (slot : Nat → Nat) (past : List Record) (s : GraphStore) (r : GraphStore.EdgeRecord)
    (d : Dir) : Prop :=
  NeverAdded k.parser.getOffset (opsAt k r d past) (k.parser.getOffset (r.other d)) ∨
    AddedLast k.parser.getOffset (opsAt k r d past) (innerLid k.parser (r.other d)) ∧
      EndFits slot s r d (GraphStore.delEdgePropBytes (s.edgeDtypes.getD r.elabel []))

/-- What is enough for a record, of the records and of the store before it. Every addition has to fit (`PutFits`), also
one that would do no harm without, so the condition is only sufficient. -/
def RecordOk (k : Partition) (slot : Nat → Nat) (past : List Record) (s : GraphStore) : Record → Prop
  | .addEdge cmd => ∀ d,
      EndFits slot s cmd.toRecord d (GraphStore.edgeDataSize (s.edgeDtypes.getD cmd.toRecord.elabel []))
  | .deleteEdge cmd => ∀ d, DeleteOk k slot past s cmd.toRecord d
  | _ => True

/-- Every record has what it needs in the store that it comes to. -/
def RecordsOk (k : Partition) (slot : Nat → Nat) (past : List Record) (s : GraphStore) :
    List (GraphStore.RecordDraws × Record) → Prop
  | [] => True
  | line :: rest => RecordOk k slot past s line.2 ∧
    ∀ s', s.applyRecord line = .ok s' → RecordsOk k slot (past ++ [line.2]) s' rest

instance (slot : Nat → Nat) (s : GraphStore) (r : GraphStore.EdgeRecord) (d : Dir) (size : Nat) :
    Decidable (EndFits slot s r d size) := inferInstanceAs (Decidable (∀ l ∈ _, _))

instance (k : Partition) (slot : Nat → Nat) (past : List Record) (s : GraphStore) (r : GraphStore.EdgeRecord)
    (d : Dir) :
    Decidable (DeleteOk k slot past s r d) := inferInstanceAs (Decidable (_ ∨ _ ∧ _))

instance (k : Partition) (slot : Nat → Nat) (past : List Record) (s : GraphStore) (r : Record) :
    Decidable (RecordOk k slot past s r) :=
  match r with
  | .addEdge _ => inferInstanceAs (Decidable (∀ d : Dir, EndFits _ _ _ d _))
  | .deleteEdge _ => inferInstanceAs (Decidable (∀ d : Dir, DeleteOk _ _ _ _ _ d))
  | .addVertex _ | .updateVertex _ | .deleteVertex _ | .bulkloadEnd _ | .unsupported _ => isTrue trivial

instance decidableRecordsOk (k : Partition) (slot : Nat → Nat) (past : List Record) (s : GraphStore) :
    (lines : List (GraphStore.RecordDraws × Record)) → Decidable (RecordsOk k slot past s lines)
  | [] => isTrue trivial
  | line :: rest =>
    have := fun s' => decidableRecordsOk k slot (past ++ [line.2]) s' rest
    inferInstanceAs (Decidable (RecordOk k slot past s line.2 ∧
      ∀ s', s.applyRecord line = .ok s' → RecordsOk k slot (past ++ [line.2]) s' rest))

/-- An inner vertex of the partition with a global id as `generate_id` makes it. -/
def InnerGid (k : Partition) (gid : Nat) : Prop := gid < 2 ^ 63 ∧ k.parser.getFid gid = k.pid

/-- A record of a run that does not delete vertices; its edges are of directed labels between inner vertices. -/
def EdgeRun (k : Partition) (undirected : Nat → Bool) : Record → Prop
  | .addEdge cmd => InnerGid k cmd.srcVid ∧ InnerGid k cmd.dstVid ∧ undirected cmd.elabel.toNat = false
  | .deleteEdge cmd => InnerGid k cmd.srcVid ∧ InnerGid k cmd.dstVid ∧ undirected cmd.elabel.toNat = false
  | .deleteVertex _ => False
  | _ => True

instance (k : Partition) (gid : Nat) : Decidable (InnerGid k gid) := inferInstanceAs (Decidable (_ ∧ _))

instance (k : Partition) (undirected : Nat → Bool) (r : Record) : Decidable (EdgeRun k undirected r) :=
  match r with
  | .addEdge _ | .deleteEdge _ => inferInstanceAs (Decidable (InnerGid _ _ ∧ InnerGid _ _ ∧ _))
  | .deleteVertex _ => isFalse id
  | .addVertex _ | .updateVertex _ | .bulkloadEnd _ | .unsupported _ => isTrue trivial

/-! ### Operations of a list -/

section ops
variable {k : Partition} {vlabel v e t : Nat} {d : Dir} {log more : List Record} {r : Record}

theorem opsOn_append : opsOn k vlabel v e d (log ++ more) = opsOn k vlabel v e d log ++ opsOn k vlabel v e d more :=
  List.filterMap_append

theorem opsOn_append_none (h : opOn k vlabel v e d r = none) :
    opsOn k vlabel v e d (log ++ [r]) = opsOn k vlabel v e d log := by
  rw [opsOn_append]
  unfold opsOn
  rw [List.filterMap_cons_none h]
  exact List.append_nil _

theorem opsOn_append_some {op : ListOp Nat} (h : opOn k vlabel v e d r = some op) :
    opsOn k vlabel v e d (log ++ [r]) = opsOn k vlabel v e d log ++ [op] := by
  rw [opsOn_append]
  unfold opsOn
  rw [List.filterMap_cons_some h]
  rfl

theorem upTo_append_of_le (h : r.epoch ≤ t) : upTo t (log ++ [r]) = upTo t log ++ [r] := by
  unfold upTo
  rw [List.filter_append]
  exact congrArg _ (List.filter_cons_of_pos (decide_eq_true h))

theorem upTo_append_of_not (h : ¬ r.epoch ≤ t) : upTo t (log ++ [r]) = upTo t log := by
  unfold upTo
  rw [List.filter_append, show ([r].filter fun r => decide (r.epoch ≤ t)) = [] from
    List.filter_cons_of_neg (by simpa using h)]
  exact List.append_nil _

theorem upTo_eq_self (h : ∀ r ∈ log, r.epoch ≤ t) : upTo t log = log :=
  List.filter_eq_self.mpr fun r hr => decide_eq_true (h r hr)

theorem upTo_prefix (h : log.Pairwise fun a b => a.epoch ≤ b.epoch) : upTo t log <+: log := by
  induction log with
  | nil => exact List.prefix_rfl
  | cons r rest ih =>
    obtain ⟨hfirst, hrest⟩ := List.pairwise_cons.mp h
    unfold upTo
    by_cases hr : r.epoch ≤ t
    · rw [show (r :: rest).filter (fun r => decide (r.epoch ≤ t)) = r :: upTo t rest from
        List.filter_cons_of_pos (decide_eq_true hr)]
      exact (List.prefix_cons_inj r).mpr (ih hrest)
    · have hnil : (r :: rest).filter (fun r => decide (r.epoch ≤ t)) = [] := by
        apply List.filter_eq_nil_iff.mpr
        intro r' hr'
        rw [decide_eq_true_iff]
        rcases List.mem_cons.mp hr' with rfl | hr'
        · exact hr
        · exact fun hle => hr (Nat.le_trans (hfirst r' hr') hle)
      rw [hnil]
      exact List.nil_prefix

end ops

/-! ### The lists of a partition -/

/-- The inner vertices of a partition after the records of each direction, all with epochs up to `w`: every list holds,
up to any epoch, the cells that its operations leave. -/
structure EdgeLists (k : Partition) (slot : Nat → Nat) (undirected : Nat → Bool) (dtypes : List (List PropertyDataType))
    (s : GraphStore) (log : Nat → Log) (past : Dir → List Record) (w : Nat) : Prop where
  idParser : s.idParser = k.parser
  localPid : s.localPid = k.pid
  dtypes : s.edgeDtypes = dtypes
  graph : ∀ i l, s.labels[i]? = some l → ListGraph (fun _ => False) slot undirected k.small l.graph (log i)
  sorted : ∀ i v e d, (log i v e d).Pairwise fun a b => a.epoch ≤ b.epoch
  bounded : ∀ i v e d, ∀ entry ∈ log i v e d, entry.epoch ≤ w
  pastBounded : ∀ d, ∀ r ∈ past d, r.epoch ≤ w
  cells : ∀ i v e d, undirected e = false → ∀ t,
    cellsOf (upToEpoch t (log i v e d)) = cellsAfter k.parser.getOffset (opsOn k i v e d (upTo t (past d)))
  live : ∀ i v e d, DeletesLive k.parser.getOffset (opsOn k i v e d (past d))

section lists
variable {k : Partition} {slot : Nat → Nat} {undirected : Nat → Bool} {dtypes : List (List PropertyDataType)}
  {s s' : GraphStore} {log : Nat → Log} {past : Dir → List Record} {w vlabel v e : Nat} {d : Dir} {l l' : LabelStore}
  {newLog : Log} {r : Record} {op : ListOp Nat} {more : List LogEntry}

theorem deletesLive_append {ops : List (ListOp Nat)} {key : Nat → Nat} (h : DeletesLive key ops)
    (hdel : ∀ x, op = .del x → Deletable key ops x) : DeletesLive key (ops ++ [op]) := by
  intro before x after heq
  rcases List.eq_nil_or_concat after with rfl | ⟨after', last, rfl⟩
  · obtain ⟨hops, hop⟩ := List.append_inj' heq rfl
    rw [← hops]
    exact hdel x (List.singleton_inj.mp hop)
  · rw [List.concat_eq_append, ← List.cons_append, ← List.append_assoc] at heq
    exact h before x after' (List.append_inj' heq rfl).1

theorem EdgeLists.now (h : EdgeLists k slot undirected dtypes s log past w) (hdir : undirected e = false) :
    cellsOf (log vlabel v e d) = cellsAfter k.parser.getOffset (opsOn k vlabel v e d (past d)) := by
  have hcells := h.cells vlabel v e d hdir w
  rw [upToEpoch_of_bounded (h.bounded vlabel v e d), upTo_eq_self (h.pastBounded d)] at hcells
  exact hcells

theorem EdgeLists.grow (h : EdgeLists k slot undirected dtypes s log past w) (hone : OneLabel vlabel l l' s s')
    (hgraph : ListGraph (fun _ => False) slot undirected k.small l.graph (log vlabel) →
      ListGraph (fun _ => False) slot undirected k.small l'.graph newLog)
    (hlog : ∀ v' e' d', newLog v' e' d' =
      if v' = v ∧ e' = e ∧ d' = d then log vlabel v' e' d' ++ more else log vlabel v' e' d')
    (hmore : ∀ entry ∈ more, entry.epoch = r.epoch) (hshort : more.length ≤ 1) (hle : w ≤ r.epoch)
    (hop : opOn k vlabel v e d r = some op)
    (hother : ∀ i v' e', ¬ (i = vlabel ∧ v' = v ∧ e' = e) → opOn k i v' e' d r = none)
    (hcells : undirected e = false →
        cellsOf (log vlabel v e d ++ more) = op.apply k.parser.getOffset (cellsOf (log vlabel v e d)))
    (hdel : ∀ x, op = .del x → Deletable k.parser.getOffset (opsOn k vlabel v e d (past d)) x) :
    EdgeLists k slot undirected dtypes s' (Function.update log vlabel newLog)
      (Function.update past d (past d ++ [r])) r.epoch := by
  have hall : ∀ i v' e' d', Function.update log vlabel newLog i v' e' d' =
      if i = vlabel ∧ v' = v ∧ e' = e ∧ d' = d then log i v' e' d' ++ more else log i v' e' d' := by
    intro i v' e' d'
    by_cases hi : i = vlabel
    · rw [hi, Function.update_self, hlog]
      exact if_congr (by simp) rfl rfl
    · rw [Function.update_of_ne hi, if_neg fun hon => hi hon.1]
  have hbounded : ∀ i v' e' d', ∀ entry ∈ log i v' e' d', entry.epoch ≤ r.epoch :=
    fun i v' e' d' entry hentry => Nat.le_trans (h.bounded i v' e' d' entry hentry) hle
  have hpast : ∀ d', ∀ r' ∈ past d', r'.epoch ≤ r.epoch := fun d' r' hr' => Nat.le_trans (h.pastBounded d' r' hr') hle
  refine ⟨hone.same.idParser.trans h.idParser, hone.same.localPid.trans h.localPid, hone.same.edgeDtypes.trans h.dtypes,
    fun i m hm => ?_, fun i v' e' d' => ?_, fun i v' e' d' => ?_, fun d' => ?_, fun i v' e' d' hdir t => ?_,
    fun i v' e' d' => ?_⟩
  · rw [hone.after] at hm
    split at hm
    · rename_i hi
      rw [hi, Function.update_self, ← Option.some.inj hm]
      exact hgraph (h.graph vlabel l hone.before)
    · rename_i hi
      rw [Function.update_of_ne hi]
      exact h.graph i m hm
  · rw [hall]
    split
    · rw [List.pairwise_append]
      refine ⟨h.sorted i v' e' d', ?_, fun a ha b hb => ?_⟩
      · rcases more with _ | ⟨entry, _ | ⟨entry', rest⟩⟩
        · exact List.Pairwise.nil
        · exact List.pairwise_singleton _ _
        · simp at hshort
      · rw [hmore b hb]
        exact hbounded i v' e' d' a ha
    · exact h.sorted i v' e' d'
  · rw [hall]
    split
    · intro entry hentry
      rcases List.mem_append.mp hentry with hold | hnew
      · exact hbounded i v' e' d' entry hold
      · exact Nat.le_of_eq (hmore entry hnew)
    · exact hbounded i v' e' d'
  · by_cases hd : d' = d
    · rw [hd, Function.update_self]
      intro r' hr'
      rcases List.mem_append.mp hr' with hold | hnew
      · exact hpast d r' hold
      · rw [List.mem_singleton.mp hnew]
    · rw [Function.update_of_ne hd]
      exact hpast d'
  · rw [hall]
    by_cases hd : d' = d
    · rw [hd, Function.update_self]
      by_cases hon : i = vlabel ∧ v' = v ∧ e' = e
      · obtain ⟨rfl, rfl, rfl⟩ := hon
        rw [if_pos ⟨rfl, rfl, rfl, rfl⟩]
        by_cases ht : r.epoch ≤ t
        · have hcellsNow : cellsOf (log i v' e' d) = cellsAfter k.parser.getOffset (opsOn k i v' e' d (past d)) :=
            h.now hdir
          have hself : upToEpoch t (log i v' e' d ++ more) = log i v' e' d ++ more := by
            apply upToEpoch_of_bounded
            intro entry hentry
            rcases List.mem_append.mp hentry with hold | hnew
            · exact Nat.le_trans (hbounded i v' e' d entry hold) ht
            · rw [hmore entry hnew]
              exact ht
          rw [upTo_append_of_le ht, upTo_eq_self fun r' hr' => Nat.le_trans (hpast d r' hr') ht, opsOn_append_some hop,
            cellsAfter_append, ← hcellsNow, hself]
          exact hcells hdir
        · have hnone : upToEpoch t (log i v' e' d ++ more) = upToEpoch t (log i v' e' d) := by
            unfold upToEpoch
            rw [List.filter_append]
            have hnil : more.filter (fun entry => decide (entry.epoch ≤ t)) = [] := by
              apply List.filter_eq_nil_iff.mpr
              intro entry hentry
              rw [hmore entry hentry, decide_eq_true_iff]
              exact ht
            rw [hnil, List.append_nil]
          rw [upTo_append_of_not ht, hnone]
          exact h.cells i v' e' d hdir t
      · rw [if_neg fun hall => hon ⟨hall.1, hall.2.1, hall.2.2.1⟩]
        have hsame : opsOn k i v' e' d (upTo t (past d ++ [r])) = opsOn k i v' e' d (upTo t (past d)) := by
          by_cases ht : r.epoch ≤ t
          · rw [upTo_append_of_le ht, opsOn_append_none (hother i v' e' hon)]
          · rw [upTo_append_of_not ht]
        rw [hsame]
        exact h.cells i v' e' d hdir t
    · rw [if_neg fun hon => hd hon.2.2.2, Function.update_of_ne hd]
      exact h.cells i v' e' d' hdir t
  · by_cases hd : d' = d
    · rw [hd, Function.update_self]
      by_cases hon : i = vlabel ∧ v' = v ∧ e' = e
      · obtain ⟨rfl, rfl, rfl⟩ := hon
        rw [opsOn_append_some hop]
        exact deletesLive_append (h.live i v' e' d) hdel
      · rw [opsOn_append_none (hother i v' e' hon)]
        exact h.live i v' e' d
    · rw [Function.update_of_ne hd]
      exact h.live i v' e' d'

end lists

end Gart.Store
