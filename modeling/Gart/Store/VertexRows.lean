import Gart.Store.StoreSteps
import Gart.Store.VertexRun

/-!
# The rows of a run of vertex records

A run of insertions and updates leaves a list of written rows. What a reader of an epoch
takes for a row is the last of its writes up to that epoch, once the row is inserted.
-/

namespace Gart.Store
open Gart.ByteMemory Gart.Outcome Gart.Fragment

/-! ### Runs -/

/-- A call of `insert_inner_vertex` or of `update_inner_vertex`. -/
inductive VertexCall
  | insert (recycle : Bool) (epoch gid : Nat) (externalId : Bytes) (vprop : List Bytes)
  | update (epoch gid : Nat) (vprop : List Bytes)

namespace VertexCall

def epoch : VertexCall → Nat
  | insert _ epoch _ _ _ => epoch
  | update epoch _ _ => epoch

def gid : VertexCall → Nat
  | insert _ _ gid _ _ => gid
  | update _ gid _ => gid

def vprop : VertexCall → List Bytes
  | insert _ _ _ _ vprop => vprop
  | update _ _ vprop => vprop

end VertexCall

def GraphStore.applyVertexCall (s : GraphStore) : VertexCall → Except StoreFault GraphStore
  | .insert recycle epoch gid externalId vprop => s.insertInnerVertex recycle epoch gid externalId vprop
  | .update epoch gid vprop => s.updateInnerVertex epoch gid vprop

/-! ### Written rows -/

/-- The row of a vertex with the texts that a call writes to it. -/
structure RowWrite where
  label : Nat
  off : Nat
  epoch : Nat
  inserts : Bool
  texts : List Bytes
  deriving DecidableEq

def inserted (writes : List RowWrite) (label : Nat) : Nat :=
  writes.countP fun write => write.inserts ∧ write.label = label

/-- A new vertex gets the next row of its label, an update goes to the row of its gid. -/
def rowWrite (parser : IdParser) (writes : List RowWrite) : VertexCall → RowWrite
  | .insert _ epoch gid _ vprop =>
    ⟨parser.getLabelId gid, inserted writes (parser.getLabelId gid), epoch, true, vprop⟩
  | .update epoch gid vprop => ⟨parser.getLabelId gid, parser.getOffset gid, epoch, false, vprop⟩

def addWrite (parser : IdParser) (pid : Nat) (writes : List RowWrite) (call : VertexCall) : List RowWrite :=
  if parser.getFid call.gid = pid then writes ++ [rowWrite parser writes call] else writes

theorem addWrite_of_ne {parser : IdParser} {pid : Nat} (writes : List RowWrite) (call : VertexCall)
    (h : parser.getFid call.gid ≠ pid) : addWrite parser pid writes call = writes := if_neg h

theorem addWrite_of_eq {parser : IdParser} {pid : Nat} (writes : List RowWrite) (call : VertexCall)
    (h : parser.getFid call.gid = pid) :
    addWrite parser pid writes call = writes ++ [rowWrite parser writes call] := if_pos h

def rowWrites (parser : IdParser) (pid : Nat) (calls : List VertexCall) : List RowWrite :=
  calls.foldl (addWrite parser pid) []

def lastWrite (writes : List RowWrite) (label off e : Nat) : Option RowWrite :=
  (writes.filter fun write => write.label = label ∧ write.off = off ∧ write.epoch ≤ e).getLast?

def InsertedBy (writes : List RowWrite) (label off e : Nat) : Prop :=
  ∃ write ∈ writes, write.inserts = true ∧ write.label = label ∧ write.off = off ∧ write.epoch ≤ e

instance (writes : List RowWrite) (label off e : Nat) : Decidable (InsertedBy writes label off e) :=
  inferInstanceAs (Decidable (∃ write ∈ writes, _))

def current (writes : List RowWrite) (label : Nat) : Rows := fun off e =>
  if InsertedBy writes label off e then (lastWrite writes label off e).map RowWrite.texts else none

section writes
variable {writes : List RowWrite} {write : RowWrite} {label off e : Nat}

theorem lastWrite_append : lastWrite (writes ++ [write]) label off e =
    if write.label = label ∧ write.off = off ∧ write.epoch ≤ e then some write
    else lastWrite writes label off e := by
  unfold lastWrite
  rw [List.filter_append]
  by_cases hmine : write.label = label ∧ write.off = off ∧ write.epoch ≤ e
  · have hlast : ([write].filter fun write => write.label = label ∧ write.off = off ∧ write.epoch ≤ e) = [write] :=
      List.filter_cons_of_pos (decide_eq_true hmine)
    rw [if_pos hmine, hlast, List.getLast?_append]
    rfl
  · have hlast : ([write].filter fun write => write.label = label ∧ write.off = off ∧ write.epoch ≤ e) = [] :=
      List.filter_cons_of_neg (by simpa using hmine)
    rw [if_neg hmine, hlast, List.append_nil]

theorem insertedBy_append : InsertedBy (writes ++ [write]) label off e ↔ InsertedBy writes label off e ∨
    write.inserts = true ∧ write.label = label ∧ write.off = off ∧ write.epoch ≤ e := by
  unfold InsertedBy
  simp only [List.mem_append, List.mem_singleton]
  constructor
  · rintro ⟨x, hx | rfl, hrest⟩
    · exact Or.inl ⟨x, hx, hrest⟩
    · exact Or.inr hrest
  · rintro (⟨x, hx, hrest⟩ | hrest)
    · exact ⟨x, Or.inl hx, hrest⟩
    · exact ⟨write, Or.inr rfl, hrest⟩

theorem current_append_of_ne (h : ¬ (write.label = label ∧ write.off = off ∧ write.epoch ≤ e)) :
    current (writes ++ [write]) label off e = current writes label off e := by
  have hinserted : InsertedBy (writes ++ [write]) label off e ↔ InsertedBy writes label off e := by
    rw [insertedBy_append]
    exact or_iff_left fun hmine => h hmine.2
  unfold current
  rw [lastWrite_append, if_neg h]
  exact if_congr hinserted rfl rfl

theorem write_current (writes : List RowWrite) (write : RowWrite) :
    Write write.off write.epoch write.texts (current writes write.label)
      (current (writes ++ [write]) write.label) where
  other off e hne := current_append_of_ne fun hmine => hne hmine.2.1.symm
  old e he := current_append_of_ne fun hmine => absurd hmine.2.2 (Nat.not_le.mpr he)
  new e texts he hsome := by
    have hlast : lastWrite (writes ++ [write]) write.label write.off e = some write :=
      lastWrite_append.trans (if_pos ⟨rfl, rfl, he⟩)
    unfold current at hsome
    rw [hlast] at hsome
    split at hsome
    · exact (Option.some.inj hsome).symm
    · cases hsome

theorem insertedBy_of_current (h : current writes label off e ≠ none) : InsertedBy writes label off e := by
  unfold current at h
  split at h
  · rename_i hinserted
    exact hinserted
  · exact absurd rfl h

theorem current_ne_none (h : InsertedBy writes label off e) : current writes label off e ≠ none := by
  unfold current
  rw [if_pos h]
  obtain ⟨write, hmem, -, hrow⟩ := h
  have hin : write ∈ writes.filter fun write => write.label = label ∧ write.off = off ∧ write.epoch ≤ e :=
    List.mem_filter.mpr ⟨hmem, decide_eq_true hrow⟩
  intro hnone
  have hlast := List.getLast?_eq_none_iff.mp (Option.map_eq_none_iff.mp hnone)
  rw [hlast] at hin
  cases hin

theorem current_update (hupdate : write.inserts = false)
    (h : current (writes ++ [write]) label off e ≠ none) : current writes label off e ≠ none := by
  rcases insertedBy_append.mp (insertedBy_of_current h) with hold | hnew
  · exact current_ne_none hold
  · rw [hupdate] at hnew
    exact absurd hnew.1 (by simp)

end writes

/-! ### What a run keeps -/

/-- The calls that the store is given: a text for every property, and strings that have a key. -/
structure Proper (sb : SchemaBuild) (parser : IdParser) (call : VertexCall) : Prop where
  length : call.vprop.length = (sb.dtypesOf (parser.getLabelId call.gid)).length
  short : ShortStrings (sb.dtypesOf (parser.getLabelId call.gid)) call.vprop

structure LabelRows (strings : StringBuffer) (c : LabelConfig) (layout : VertexLayout)
    (dtypes : List PropertyDataType) (l : LabelStore) (rows : Rows) (count w : Nat) : Prop where
  sameLayout : l.layout = layout
  sameDtypes : l.dtypes = dtypes
  cols : l.property.cols = layout.colFamilies.map (ColumnFamily.settle c.vertexCapacity)
  vertexId : l.graph.vertexId = count
  rows : PropInv strings layout dtypes l.property rows w

structure RowsInv (c : StoreConfig) (sb : SchemaBuild) (s : GraphStore) (writes : List RowWrite) (w : Nat) :
    Prop where
  idParser : s.idParser = IdParser.init c.totalPartitions
  localPid : s.localPid = c.localPid
  length : s.labels.length = sb.layouts.length
  label : ∀ i l, s.labels[i]? = some l → ∃ layout, sb.layouts[i]? = some layout ∧
    LabelRows s.strings (c.label i) layout (sb.dtypesOf i) l (current writes i) (inserted writes i) w

section run
variable {c : StoreConfig} {sb : SchemaBuild} {s s' : GraphStore} {writes : List RowWrite} {w : Nat}

theorem rowsInv_create (hlaid : ∀ i layout, sb.layouts[i]? = some layout →
      WellLaid (layout.colFamilies.map (ColumnFamily.settle (c.label i).vertexCapacity)) layout (sb.dtypesOf i)) :
    RowsInv c sb (GraphStore.create c sb) [] 0 := by
  have hlabels : (GraphStore.create c sb).labels = sb.layouts.zipIdx.map fun layout =>
      LabelStore.create (c.label layout.2) c.edgeIsUndirected layout.1 (sb.dtypesOf layout.2) := rfl
  refine ⟨rfl, rfl, by rw [hlabels, List.length_map, List.length_zipIdx], fun i l hl => ?_⟩
  rw [hlabels, List.getElem?_map, List.getElem?_zipIdx] at hl
  obtain ⟨x, hx, rfl⟩ := Option.map_eq_some_iff.mp hl
  obtain ⟨layout, hlayout, rfl⟩ := Option.map_eq_some_iff.mp hx
  rw [Nat.zero_add]
  exact ⟨layout, hlayout, rfl, rfl, rfl, rfl, propInv_create (hlaid i layout hlayout) rfl⟩

theorem PropInv.mono {strings : StringBuffer} {layout : VertexLayout} {dtypes : List PropertyDataType}
    {p : PropertyColPaged} {cur : Rows} {w w' : Nat} (h : PropInv strings layout dtypes p cur w) (hle : w ≤ w') :
    PropInv strings layout dtypes p cur w' :=
  ⟨h.laid, h.length, fun f col hcol =>
    ⟨fun pg => ((h.family f col hcol).upTo pg).mono hle, (h.family f col hcol).holds⟩⟩

theorem LabelRows.keep {strings strings' : StringBuffer} {lc : LabelConfig} {layout : VertexLayout}
    {dtypes : List PropertyDataType} {l : LabelStore} {rows : Rows} {count w w' : Nat}
    (h : LabelRows strings lc layout dtypes l rows count w) (hext : strings.Extends strings') (hle : w ≤ w') :
    LabelRows strings' lc layout dtypes l rows count w' :=
  ⟨h.sameLayout, h.sameDtypes, h.cols, h.vertexId, (h.rows.extends hext).mono hle⟩

theorem externalIdValue_extends {l : LabelStore} {strings : StringBuffer} {externalId : Bytes}
    {stored : Nat × StringBuffer} (h : l.externalIdValue strings externalId = .ok stored) :
    strings.Extends stored.2 := by
  unfold LabelStore.externalIdValue at h
  split at h
  · exact StringBuffer.putCstring_extends h
  · obtain ⟨n, -, h⟩ := bind_eq_ok h
    rw [← Except.ok.inj h]
    exact .refl _

theorem inserted_append (writes : List RowWrite) (write : RowWrite) (label : Nat) :
    inserted (writes ++ [write]) label =
      inserted writes label + if write.inserts ∧ write.label = label then 1 else 0 := by
  unfold inserted
  rw [List.countP_append, List.countP_singleton]
  simp only [decide_eq_true_eq]

theorem RowsInv.write {label : Nat} {l l' : LabelStore} {write : RowWrite}
    (h : RowsInv c sb s writes w) (hone : OneLabel label l l' s s') (hlabel : write.label = label)
    (hext : s.strings.Extends s'.strings) (hle : w ≤ write.epoch)
    (hnew : ∀ layout, LabelRows s.strings (c.label label) layout (sb.dtypesOf label) l (current writes label)
        (inserted writes label) w →
      LabelRows s'.strings (c.label label) layout (sb.dtypesOf label) l' (current (writes ++ [write]) label)
        (inserted (writes ++ [write]) label) write.epoch) :
    RowsInv c sb s' (writes ++ [write]) write.epoch := by
  refine ⟨hone.same.idParser.trans h.idParser, hone.same.localPid.trans h.localPid,
    hone.length.trans h.length, fun i k hk => ?_⟩
  rw [hone.after] at hk
  split at hk
  · rename_i hi
    rw [hi, ← Option.some.inj hk]
    obtain ⟨layout, hlayout, hrows⟩ := h.label label l hone.before
    exact ⟨layout, hlayout, hnew layout hrows⟩
  · rename_i hi
    obtain ⟨layout, hlayout, hrows⟩ := h.label i k hk
    have hcurrent : current (writes ++ [write]) i = current writes i := by
      funext off e
      exact current_append_of_ne fun hmine => hi (hmine.1.symm.trans hlabel)
    have hcount : inserted (writes ++ [write]) i = inserted writes i := by
      rw [inserted_append, if_neg fun hmine => hi (hmine.2.symm.trans hlabel)]
      rfl
    rw [hcurrent, hcount]
    exact ⟨layout, hlayout, hrows.keep hext hle⟩

theorem RowsInv.mono {w' : Nat} (h : RowsInv c sb s writes w) (hle : w ≤ w') : RowsInv c sb s writes w' := by
  refine ⟨h.idParser, h.localPid, h.length, fun i l hl => ?_⟩
  obtain ⟨layout, hlayout, hrows⟩ := h.label i l hl
  exact ⟨layout, hlayout, hrows.keep (.refl _) hle⟩

theorem RowsInv.mapVertex {label : Nat} {l : LabelStore} {map : Int → Option Nat} (h : RowsInv c sb s writes w)
    (hone : OneLabel label l { l with vertexMap := map } s s') (hstrings : s'.strings = s.strings) :
    RowsInv c sb s' writes w := by
  refine ⟨hone.same.idParser.trans h.idParser, hone.same.localPid.trans h.localPid,
    hone.length.trans h.length, fun i k hk => ?_⟩
  rw [hone.after] at hk
  rw [hstrings]
  split at hk
  · rename_i hi
    obtain ⟨layout, hlayout, hrows⟩ := h.label label l hone.before
    rw [hi, ← Option.some.inj hk]
    exact ⟨layout, hlayout, hrows.sameLayout, hrows.sameDtypes, hrows.cols, hrows.vertexId, hrows.rows⟩
  · exact h.label i k hk

theorem LabelRows.insert {lc : LabelConfig} {layout : VertexLayout} {dtypes : List PropertyDataType}
    {l l' : LabelStore} {recycle : Bool} {epoch gid label : Nat} {vprop : List Bytes}
    (h : LabelRows s.strings lc layout dtypes l (current writes label) (inserted writes label) w)
    (hl' : Inserted s s' recycle epoch gid vprop l l') (hle : w ≤ epoch)
    (hlength : vprop.length = dtypes.length) (hshort : ShortStrings dtypes vprop) :
    s.strings.Extends s'.strings ∧
      LabelRows s'.strings lc layout dtypes l'
        (current (writes ++ [⟨label, inserted writes label, epoch, true, vprop⟩]) label)
        (inserted (writes ++ [⟨label, inserted writes label, epoch, true, vprop⟩]) label) epoch := by
  obtain ⟨externalId, stored, args, hstored, hargs, hproperty⟩ := hl'.property
  rw [h.sameDtypes] at hargs hproperty
  rw [h.sameLayout] at hproperty
  have hstrings := putStrings_spec hshort hargs
  have hext := (externalIdValue_extends hstored).trans hstrings.extended
  have hrows : PropInv s'.strings layout dtypes l.property.getNewOffset.2 (current writes label) w :=
    ⟨h.rows.laid, h.rows.length, (h.rows.extends hext).family⟩
  have hwrite := write_current writes ⟨label, inserted writes label, epoch, true, vprop⟩
  rw [h.vertexId] at hproperty
  obtain ⟨hnew, hcols, -⟩ := insert_spec hrows hle hwrite (hstrings.length.trans hlength) hlength hstrings.given
    hproperty
  refine ⟨hext, hl'.layout.trans h.sameLayout, hl'.dtypes.trans h.sameDtypes, hcols.trans h.cols, ?_, hnew⟩
  rw [hl'.graph, Seggraph.newVertex_vertexId, (Seggraph.createGraphWriter_sameGraph _ _ _).vertexId, h.vertexId,
    inserted_append, if_pos ⟨rfl, rfl⟩]

theorem LabelRows.update {lc : LabelConfig} {layout : VertexLayout} {dtypes : List PropertyDataType}
    {l l' : LabelStore} {epoch gid label off : Nat} {vprop : List Bytes}
    (h : LabelRows s.strings lc layout dtypes l (current writes label) (inserted writes label) w)
    (hl' : Updated s s' epoch gid vprop l l') (hoff : s.idParser.getOffset gid = off) (hle : w ≤ epoch)
    (hlength : vprop.length = dtypes.length) (hshort : ShortStrings dtypes vprop) :
    s.strings.Extends s'.strings ∧
      LabelRows s'.strings lc layout dtypes l' (current (writes ++ [⟨label, off, epoch, false, vprop⟩]) label)
        (inserted (writes ++ [⟨label, off, epoch, false, vprop⟩]) label) epoch := by
  have hproperty := hl'.property
  obtain ⟨property, rfl⟩ := hl'.rest
  rw [h.sameDtypes, h.sameLayout, hoff] at hproperty
  have hwrite := write_current writes ⟨label, off, epoch, false, vprop⟩
  obtain ⟨hext, hnew, hcols, -⟩ := update_spec h.rows hle hwrite (fun e _ hsome => current_update rfl hsome) hlength
    hshort hproperty
  refine ⟨hext, h.sameLayout, h.sameDtypes, hcols.trans h.cols, ?_, hnew⟩
  rw [inserted_append, if_neg fun hmine => absurd hmine.1 (by simp)]
  exact h.vertexId

theorem RowsInv.call {call : VertexCall} (h : RowsInv c sb s writes w)
    (hproper : Proper sb (IdParser.init c.totalPartitions) call) (hle : w ≤ call.epoch)
    (hcall : s.applyVertexCall call = .ok s') :
    RowsInv c sb s' (addWrite (IdParser.init c.totalPartitions) c.localPid writes call) call.epoch := by
  obtain ⟨hlength, hshort⟩ := hproper
  cases call with
  | insert recycle epoch gid externalId vprop =>
    obtain ⟨l, l', hone, hcases⟩ := insertInnerVertex_cases hcall
    rw [h.idParser] at hone
    rw [h.idParser, h.localPid] at hcases
    rcases hcases with ⟨hfid, ⟨map, rfl⟩, hstrings, -⟩ | ⟨hfid, hl'⟩
    · rw [addWrite_of_ne writes _ hfid]
      exact (h.mapVertex hone hstrings).mono hle
    · rw [addWrite_of_eq writes _ hfid]
      obtain ⟨layout, hlayout, hrows⟩ := h.label _ l hone.before
      exact h.write hone rfl (hrows.insert hl' hle hlength hshort).1 hle
        fun layout hrows => (hrows.insert hl' hle hlength hshort).2
  | update epoch gid vprop =>
    have hcases := updateInnerVertex_cases hcall
    rw [h.localPid] at hcases
    rcases hcases with ⟨hfid, rfl⟩ | ⟨hfid, l, l', hone, hl'⟩
    · rw [h.idParser] at hfid
      rw [addWrite_of_ne writes _ hfid]
      exact h.mono hle
    · rw [h.idParser] at hone hfid
      rw [addWrite_of_eq writes _ hfid]
      obtain ⟨layout, hlayout, hrows⟩ := h.label _ l hone.before
      have hoff : s.idParser.getOffset gid = (IdParser.init c.totalPartitions).getOffset gid := by
        rw [h.idParser]
      exact h.write hone rfl (hrows.update hl' hoff hle hlength hshort).1 hle
        fun layout hrows => (hrows.update hl' hoff hle hlength hshort).2

theorem RowsInv.run {calls : List VertexCall} {w : Nat} (h : RowsInv c sb s writes w)
    (hproper : ∀ call ∈ calls, Proper sb (IdParser.init c.totalPartitions) call)
    (hepochs : (w :: calls.map VertexCall.epoch).Pairwise (· ≤ ·))
    (hrun : calls.foldlM GraphStore.applyVertexCall s = .ok s') :
    ∃ w' ∈ w :: calls.map VertexCall.epoch,
      RowsInv c sb s' (calls.foldl (addWrite (IdParser.init c.totalPartitions) c.localPid) writes) w' := by
  induction calls generalizing s writes w with
  | nil =>
    rw [← Except.ok.inj hrun]
    exact ⟨w, List.mem_cons_self, h⟩
  | cons call calls ih =>
    rw [List.foldlM_cons] at hrun
    obtain ⟨s'', hcall, hrun⟩ := bind_eq_ok hrun
    rw [List.map_cons, List.pairwise_cons] at hepochs
    have hle := hepochs.1 call.epoch List.mem_cons_self
    obtain ⟨w', hw', hinv⟩ := ih (h.call (hproper call List.mem_cons_self) hle hcall)
      (fun call' hcall' => hproper call' (List.mem_cons_of_mem _ hcall')) hepochs.2 hrun
    exact ⟨w', List.mem_cons_of_mem _ hw', hinv⟩

end run

end Gart.Store
