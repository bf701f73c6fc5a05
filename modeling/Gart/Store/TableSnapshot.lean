import Gart.Fragment.VertexIterator
import Gart.Store.TableSteps

/-!
# Snapshots of the vertex table

Each part of a table is a log of vertices and of markers for deleted ones. The bounds that `update_blob` publishes stay
the bounds of the same log when the parts grow behind them.
-/

namespace Gart.Fragment
open Gart.MarkerLog Gart.Store

/-! ### Appending to a part -/

section range
variable {table table' slot lid : Nat → Nat} {cells : List (Cell Nat)} {cell : Cell Nat}

def wordOf (slot lid : Nat → Nat) : Cell Nat → Nat
  | .data x => lid x
  | .marker t => slot t + vertexDeleteFlag

theorem rangeOk_of_words (hsmall : ∀ x, lid x < vertexDeleteFlag) (hmarked : WellMarked (cellMarks cells) cells.length)
    (hwords : ∀ p cell, cells[p]? = some cell → table (slot p) = wordOf slot lid cell) : RangeOk table slot lid cells :=
  ⟨fun p _ h => hwords p _ h, fun p _ h => hwords p _ h, hsmall, hmarked⟩

theorem RangeOk.word {p : Nat} (h : RangeOk table slot lid cells) (hp : cells[p]? = some cell) :
    table (slot p) = wordOf slot lid cell := by
  cases cell with
  | data x => exact h.data p x hp
  | marker t => exact h.marker p t hp

theorem RangeOk.frame (h : RangeOk table slot lid cells)
    (hsame : ∀ p < cells.length, table' (slot p) = table (slot p)) :
    RangeOk table' slot lid cells :=
  rangeOk_of_words h.small h.marked fun p cell hp => by
    rw [hsame p (List.getElem?_eq_some_iff.mp hp).1]
    exact h.word hp

theorem RangeOk.append (h : RangeOk table slot lid cells)
    (hmarked : WellMarked (cellMarks (cells ++ [cell])) (cells ++ [cell]).length)
    (hother : ∀ p < cells.length, slot p ≠ slot cells.length) :
    RangeOk (Function.update table (slot cells.length) (wordOf slot lid cell)) slot lid (cells ++ [cell]) := by
  refine rangeOk_of_words h.small hmarked fun p cell' hp => ?_
  rcases getElem?_concat_iff.mp hp with hold | ⟨rfl, rfl⟩
  · rw [Function.update_of_ne (hother p (List.getElem?_eq_some_iff.mp hold).1)]
    exact h.word hold
  · exact Function.update_self _ _ _

theorem RangeOk.of_prefix {older : List (Cell Nat)} (h : RangeOk table slot lid cells) (hpre : older <+: cells)
    (hmarked : WellMarked (cellMarks older) older.length) : RangeOk table slot lid older :=
  rangeOk_of_words h.small hmarked fun _ _ hp => h.word (getElem?_of_isPrefix hpre hp)

end range

end Gart.Fragment

namespace Gart.Store
open Gart.Outcome Gart.Fragment Gart.MarkerLog

def deletedOf (log : List Record) : List Nat :=
  log.filterMap fun r => match r with
    | .deleteVertex cmd => some cmd.vid
    | _ => none

/-- The outer vertices that the edges of a log have in a partition. -/
def metBy (parser : IdParser) (pid : Nat) (log : List Record) : List Nat :=
  (edgesOf log).filterMap (TableView.outerEnd parser pid)

/-- What the local ids of a label must keep apart. -/
structure LidsOk (parser : IdParser) (vlabel size : Nat) : Prop where
  offset : ∀ gid, parser.getOffset (parser.generateId 0 vlabel (parser.getOffset gid)) = parser.getOffset gid
  small : ∀ offset, parser.generateId 0 vlabel offset < vertexDeleteFlag
  outer : ∀ ov < size, ∀ ov' < size, outerLidOf parser vlabel ov = outerLidOf parser vlabel ov' → ov = ov'
  table : size ≤ vertexDeleteFlag

theorem lidsOk_init {fnum vlabel size : Nat} (hfnum : fnum < 2 ^ 31)
    (hsize : size ≤ 2 ^ (IdParser.init fnum).offsetWidth) :
    LidsOk (IdParser.init fnum) vlabel size := by
  have hwidth := @IdParser.numToBitwidth_le fnum 31 (by decide) (Nat.le_of_lt hfnum)
  have hfield := @IdParser.offsetWidth_eq fnum (by omega)
  rw [hfield] at hsize
  have hpow : 2 ^ (56 - numToBitwidth fnum) ≤ 2 ^ 56 := Nat.pow_le_pow_right (by decide) (by omega)
  have hround : ∀ offset, offset < 2 ^ (56 - numToBitwidth fnum) →
      (IdParser.init fnum).getOffset ((IdParser.init fnum).generateId 0 vlabel offset) = offset :=
    fun offset hlt => IdParser.getOffset_generateId (by omega) hlt
  refine ⟨fun gid => hround _ ?_, fun offset => IdParser.generateId_lt (by omega), fun ov hov ov' hov' heq => ?_, ?_⟩
  · have hlt := @BitField.extract_lt (numToBitwidth fnum) (IdParser.init fnum).offsetWidth gid
    rw [hfield] at hlt
    have hsame : (IdParser.init fnum).getOffset gid =
        BitField.extract (numToBitwidth fnum) (IdParser.init fnum).offsetWidth gid := rfl
    rw [hsame, hfield]
    exact hlt
  · have hmask := congrArg (IdParser.init fnum).getOffset heq
    unfold outerLidOf at hmask
    rw [hfield, hround _ (by omega), hround _ (by omega)] at hmask
    omega
  · unfold vertexDeleteFlag
    omega

/-! ### The invariant -/

def innerLidOf (parser : IdParser) (vlabel gid : Nat) : Nat := parser.generateId 0 vlabel (parser.getOffset gid)

structure OuterKnown (parser : IdParser) (vlabel : Nat) (t : TableView) (outer : List Nat) : Prop where
  nodup : outer.Nodup
  keyLid : ∀ gid ov, t.keyLid gid = some ov ↔ outer[ov]? = some gid
  ovg2l : ∀ gid lid, t.ovg2l gid = some lid ↔ ∃ ov, outer[ov]? = some gid ∧ lid = outerLidOf parser vlabel ov

structure TableInv (parser : IdParser) (pid vlabel size : Nat) (log : List Record) (t : TableView)
    (inn out : List (Cell Nat)) (outer : List Nat) : Prop where
  sameSize : t.vtable.size = size
  innerLocation : t.vtable.maxInnerLocation = inn.length
  outerLocation : t.vtable.minOuterLocation + out.length = size
  room : inn.length + out.length ≤ size
  innerUse : t.inner + t.deletedInner = inn.length
  outerUse : t.outer + t.deletedOuter = out.length
  innerRange : RangeOk t.vtable.table id (innerLidOf parser vlabel) inn
  outerRange : RangeOk t.vtable.table (VertexIterator.outerSlot size) (outerLidOf parser vlabel) out
  innerLog : HoldsEach inn (arriving parser pid vlabel (gidsOf log)) fun gid => gid ∈ deletedOf log
  outerLog : HoldsEach out (List.range outer.length) fun ov => ∃ gid, outer[ov]? = some gid ∧ gid ∈ deletedOf log
  known : OuterKnown parser vlabel t outer
  count : t.outer = outer.length
  foreign : ∀ gid ∈ outer, parser.getFid gid ≠ pid
  met : ∀ gid, gid ∈ outer ↔ gid ∈ metBy parser pid log ∧ parser.getLabelId gid = vlabel

section steps
variable {parser : IdParser} {pid vlabel size gid : Nat} {log : List Record} {t t' : TableView}
  {inn out : List (Cell Nat)} {outer : List Nat}

theorem add_deleteFlag {i : Nat} (h : i < vertexDeleteFlag) : i ||| vertexDeleteFlag = i + vertexDeleteFlag := by
  have hor := Nat.two_pow_add_eq_or_of_lt h 1
  unfold vertexDeleteFlag at h ⊢
  rw [Nat.mul_one] at hor
  rw [Nat.or_comm, ← hor, Nat.add_comm]

theorem deletedOf_append (log more : List Record) : deletedOf (log ++ more) = deletedOf log ++ deletedOf more :=
  List.filterMap_append

theorem metBy_append (log more : List Record) :
    metBy parser pid (log ++ more) = metBy parser pid log ++ metBy parser pid more := by
  unfold metBy
  rw [edgesOf_append, List.filterMap_append]

theorem outerSlot_ne {p q : Nat} (hp : p < size) (hq : q < size) (hne : p ≠ q) :
    VertexIterator.outerSlot size p ≠ VertexIterator.outerSlot size q := by
  unfold VertexIterator.outerSlot
  omega

/-- The outer vertices that a table knows are those that edges of the log have met. -/
structure MetMaps (parser : IdParser) (pid vlabel : Nat) (log : List Record) (t : TableView) (outer : List Nat) :
    Prop where
  known : OuterKnown parser vlabel t outer
  count : t.outer = outer.length
  foreign : ∀ gid ∈ outer, parser.getFid gid ≠ pid
  met : ∀ gid, gid ∈ outer ↔ gid ∈ metBy parser pid log ∧ parser.getLabelId gid = vlabel

theorem TableInv.metMaps (h : TableInv parser pid vlabel size log t inn out outer) :
    MetMaps parser pid vlabel log t outer := ⟨h.known, h.count, h.foreign, h.met⟩

theorem MetMaps.skip {r : Record} (h : MetMaps parser pid vlabel log t outer)
    (hsame : t'.keyLid = t.keyLid ∧ t'.ovg2l = t.ovg2l ∧ t'.outer = t.outer)
    (hmet : ∀ gid ∈ metBy parser pid [r], parser.getLabelId gid = vlabel → gid ∈ outer) :
    MetMaps parser pid vlabel (log ++ [r]) t' outer := by
  obtain ⟨hkeyLid, hovg2l, hcount⟩ := hsame
  constructor
  · refine ⟨h.known.nodup, ?_, ?_⟩
    · rw [hkeyLid]
      exact h.known.keyLid
    · rw [hovg2l]
      exact h.known.ovg2l
  · rw [hcount]
    exact h.count
  · exact h.foreign
  · intro gid
    rw [h.met, metBy_append, List.mem_append]
    constructor
    · rintro ⟨hold, hlabel⟩
      exact ⟨Or.inl hold, hlabel⟩
    · rintro ⟨hold | hnew, hlabel⟩
      · exact ⟨hold, hlabel⟩
      · exact (h.met gid).mp (hmet gid hnew hlabel)

theorem TableInv.skip {r : Record} (h : TableInv parser pid vlabel size log t inn out outer)
    (hgids : arriving parser pid vlabel (gidsOf [r]) = []) (hdeleted : ∀ gid ∈ deletedOf [r],
      gid ∉ arriving parser pid vlabel (gidsOf log) ∧ gid ∉ outer)
    (hmet : ∀ gid ∈ metBy parser pid [r], parser.getLabelId gid = vlabel → gid ∈ outer) :
    TableInv parser pid vlabel size (log ++ [r]) t inn out outer := by
  refine { h with innerLog := ?_, outerLog := ?_, met := (h.metMaps.skip ⟨rfl, rfl, rfl⟩ hmet).met }
  · rw [gidsOf_append, arriving_append, hgids, List.append_nil]
    refine h.innerLog.congr fun gid hgid => ?_
    rw [deletedOf_append, List.mem_append]
    exact ⟨fun hor => hor.elim id fun hnew => absurd hgid (hdeleted gid hnew).1, Or.inl⟩
  · refine h.outerLog.congr fun ov _ => exists_congr fun gid => and_congr_right fun hov => ?_
    rw [deletedOf_append, List.mem_append]
    exact ⟨fun hor => hor.elim id fun hnew => absurd (List.mem_of_getElem? hov) (hdeleted gid hnew).2, Or.inl⟩

theorem TableInv.insert {cmd : VertexCmd} (h : TableInv parser pid vlabel size log t inn out outer)
    (hmine : parser.getFid cmd.vid = pid ∧ parser.getLabelId cmd.vid = vlabel)
    (hnew : cmd.vid ∉ arriving parser pid vlabel (gidsOf log)) (hlive : cmd.vid ∉ deletedOf log)
    (hstep : t.insert parser vlabel cmd.vid = .ok t') :
    TableInv parser pid vlabel size (log ++ [.addVertex cmd]) t' (inn ++ [Cell.data cmd.vid]) out outer := by
  unfold TableView.insert at hstep
  obtain ⟨vtable, hadd, hstep⟩ := bind_eq_ok hstep
  have ht := (Except.ok.inj hstep).symm
  have hgids : arriving parser pid vlabel (gidsOf (log ++ [.addVertex cmd])) =
      arriving parser pid vlabel (gidsOf log) ++ [cmd.vid] := by
    rw [gidsOf_append, arriving_append]
    congr 1
    show arriving parser pid vlabel [cmd.vid] = _
    rw [arriving_singleton, if_pos hmine]
  have hdeleted : deletedOf (log ++ [.addVertex cmd]) = deletedOf log := by
    rw [deletedOf_append]
    exact List.append_nil _
  have hmet : metBy parser pid (log ++ [.addVertex cmd]) = metBy parser pid log := by
    rw [metBy_append]
    exact List.append_nil _
  have hin := h.innerLocation
  have hout := h.outerLocation
  have hroom := h.room
  unfold VTable.addInner at hadd
  split at hadd
  · cases hadd
  · rename_i hfull
    have hvtable := (Except.ok.inj hadd).symm
    rw [ht, hvtable]
    have hinner := h.innerLog.insert hnew hlive
    constructor
    · exact h.sameSize
    · show t.vtable.maxInnerLocation + 1 = _
      rw [hin, List.length_append, List.length_singleton]
    · exact hout
    · rw [List.length_append, List.length_singleton]
      omega
    · show t.inner + 1 + t.deletedInner = _
      rw [List.length_append, List.length_singleton, ← h.innerUse]
      omega
    · exact h.outerUse
    · show RangeOk (Function.update t.vtable.table t.vtable.maxInnerLocation _) id _ _
      rw [hin]
      exact h.innerRange.append hinner.marked fun p hp => Nat.ne_of_lt hp
    · refine h.outerRange.frame fun p hp => Function.update_of_ne ?_ _ _
      unfold VertexIterator.outerSlot
      omega
    · rw [hgids, hdeleted]
      exact hinner
    · rw [hdeleted]
      exact h.outerLog
    · exact ⟨h.known.nodup, h.known.keyLid, h.known.ovg2l⟩
    · exact h.count
    · exact h.foreign
    · rw [hmet]
      exact h.met

theorem outerEnd_foreign {r : GraphStore.EdgeRecord} (h : TableView.outerEnd parser pid r = some gid) :
    parser.getFid gid ≠ pid := by
  unfold TableView.outerEnd at h
  split at h
  · split at h
    · cases h
    · rename_i hdst
      rw [← Option.some.inj h]
      exact hdst
  · rename_i hsrc
    split at h
    · rw [← Option.some.inj h]
      exact hsrc
    · cases h

theorem metBy_edge {cmd : EdgeCmd} (hsome : TableView.outerEnd parser pid cmd.toRecord = some gid) :
    metBy parser pid (log ++ [.addEdge cmd]) = metBy parser pid log ++ [gid] := by
  rw [metBy_append]
  unfold metBy
  show _ ++ [cmd.toRecord].filterMap _ = _
  rw [List.filterMap_cons, hsome]
  rfl

theorem OuterKnown.getElem?_ne (h : OuterKnown parser vlabel t outer) (hunknown : t.keyLid gid = none) (ov : Nat) :
    outer[ov]? ≠ some gid := by
  intro hov
  rw [(h.keyLid gid ov).mpr hov] at hunknown
  cases hunknown

theorem MetMaps.meetNew {cmd : EdgeCmd} (h : MetMaps parser pid vlabel log t outer)
    (hsome : TableView.outerEnd parser pid cmd.toRecord = some gid) (hlabel : parser.getLabelId gid = vlabel)
    (hunknown : t.keyLid gid = none) (hstep : t.meet parser vlabel gid = .ok t') :
    MetMaps parser pid vlabel (log ++ [.addEdge cmd]) t' (outer ++ [gid]) := by
  unfold TableView.meet at hstep
  rw [hunknown, h.count] at hstep
  dsimp only at hstep
  obtain ⟨vtable, -, hstep⟩ := bind_eq_ok hstep
  rw [← Except.ok.inj hstep]
  have hnotAt := h.known.getElem?_ne hunknown
  have hnot : gid ∉ outer := fun hmem => by
    obtain ⟨ov, hov⟩ := List.mem_iff_getElem?.mp hmem
    exact hnotAt ov hov
  have hnone : t.ovg2l gid = none := by
    cases hlid : t.ovg2l gid with
    | none => rfl
    | some lid =>
      obtain ⟨ov, hov, -⟩ := (h.known.ovg2l gid lid).mp hlid
      exact absurd hov (hnotAt ov)
  constructor
  · refine ⟨List.Nodup.append h.known.nodup (List.nodup_singleton gid) (List.disjoint_singleton.mpr hnot),
      fun gid' ov => ?_, fun gid' lid => ?_⟩
    · show Function.update t.keyLid gid (some outer.length) gid' = some ov ↔ _
      rw [getElem?_concat_iff]
      by_cases hgid : gid' = gid
      · rw [hgid, Function.update_self]
        constructor
        · intro hov
          exact Or.inr ⟨(Option.some.inj hov).symm, rfl⟩
        · rintro (hov | ⟨rfl, -⟩)
          · exact absurd hov (hnotAt ov)
          · rfl
      · rw [Function.update_of_ne hgid, h.known.keyLid]
        exact ⟨Or.inl, fun hor => hor.elim id fun hlast => absurd hlast.2 hgid⟩
    · show emplace t.ovg2l gid (outerLidOf parser vlabel outer.length) gid' = some lid ↔ _
      unfold emplace
      rw [if_pos hnone]
      by_cases hgid : gid' = gid
      · rw [hgid, Function.update_self]
        constructor
        · intro hlid
          exact ⟨outer.length, List.getElem?_concat_length, (Option.some.inj hlid).symm⟩
        · rintro ⟨ov, hov, rfl⟩
          rcases getElem?_concat_iff.mp hov with hold | ⟨rfl, -⟩
          · exact absurd hold (hnotAt ov)
          · rfl
      · rw [Function.update_of_ne hgid, h.known.ovg2l]
        constructor
        · rintro ⟨ov, hov, hlid⟩
          exact ⟨ov, getElem?_concat_iff.mpr (Or.inl hov), hlid⟩
        · rintro ⟨ov, hov, hlid⟩
          rcases getElem?_concat_iff.mp hov with hold | ⟨-, hsame⟩
          · exact ⟨ov, hold, hlid⟩
          · exact absurd hsame hgid
  · show outer.length + 1 = _
    rw [List.length_append, List.length_singleton]
  · intro gid' hmem
    rcases List.mem_append.mp hmem with hold | hlast
    · exact h.foreign gid' hold
    · rw [List.mem_singleton.mp hlast]
      exact outerEnd_foreign hsome
  · intro gid'
    rw [metBy_edge hsome, List.mem_append, List.mem_append, List.mem_singleton, h.met]
    constructor
    · rintro (⟨hold, hlabel'⟩ | rfl)
      · exact ⟨Or.inl hold, hlabel'⟩
      · exact ⟨Or.inr rfl, hlabel⟩
    · rintro ⟨hold | rfl, hlabel'⟩
      · exact Or.inl ⟨hold, hlabel'⟩
      · exact Or.inr rfl

theorem TableInv.meetNew {cmd : EdgeCmd} (h : TableInv parser pid vlabel size log t inn out outer)
    (hsome : TableView.outerEnd parser pid cmd.toRecord = some gid) (hlabel : parser.getLabelId gid = vlabel)
    (hunknown : t.keyLid gid = none) (hlive : gid ∉ deletedOf log) (hstep : t.meet parser vlabel gid = .ok t') :
    TableInv parser pid vlabel size (log ++ [.addEdge cmd]) t' inn (out ++ [Cell.data outer.length])
      (outer ++ [gid]) := by
  obtain ⟨hknown, hcount, hforeign, hmet⟩ := h.metMaps.meetNew hsome hlabel hunknown hstep
  unfold TableView.meet at hstep
  rw [hunknown, h.count] at hstep
  dsimp only at hstep
  obtain ⟨vtable, hadd, hstep⟩ := bind_eq_ok hstep
  have ht := (Except.ok.inj hstep).symm
  have hgids : gidsOf (log ++ [.addEdge cmd]) = gidsOf log := by
    rw [gidsOf_append]
    exact List.append_nil _
  have hdeleted : deletedOf (log ++ [.addEdge cmd]) = deletedOf log := by
    rw [deletedOf_append]
    exact List.append_nil _
  have hin := h.innerLocation
  have hout := h.outerLocation
  have hroom := h.room
  have hgone : ∀ ov : Nat, ov < outer.length →
      ((∃ gid' : Nat, (outer ++ [gid])[ov]? = some gid' ∧ gid' ∈ deletedOf log) ↔
        ∃ gid' : Nat, outer[ov]? = some gid' ∧ gid' ∈ deletedOf log) := by
    intro ov hov
    rw [List.getElem?_append_left hov]
  have houter : HoldsEach (out ++ [Cell.data outer.length]) (List.range (outer ++ [gid]).length)
      fun ov : Nat => ∃ gid' : Nat, (outer ++ [gid])[ov]? = some gid' ∧ gid' ∈ deletedOf log := by
    rw [List.length_append, List.length_singleton, List.range_succ]
    refine (h.outerLog.congr fun ov hov => hgone ov (List.mem_range.mp hov)).insert (by simp) ?_
    rintro ⟨gid', hgid', hgone'⟩
    rw [List.getElem?_concat_length] at hgid'
    exact hlive (Option.some.inj hgid' ▸ hgone')
  unfold VTable.addOuter at hadd
  split at hadd
  · cases hadd
  · rename_i hfull
    have hvtable := (Except.ok.inj hadd).symm
    have hslot : t.vtable.minOuterLocation - 1 = VertexIterator.outerSlot size out.length := by
      unfold VertexIterator.outerSlot
      omega
    rw [ht] at hknown hcount
    rw [hvtable] at ht hknown hcount
    rw [ht]
    refine ⟨?_, ?_, ?_, ?_, ?_, ?_, ?_, ?_, ?_, ?_, hknown, hcount, hforeign, hmet⟩
    · exact h.sameSize
    · exact hin
    · show t.vtable.minOuterLocation - 1 + _ = size
      rw [List.length_append, List.length_singleton]
      omega
    · rw [List.length_append, List.length_singleton]
      omega
    · exact h.innerUse
    · show outer.length + 1 + t.deletedOuter = _
      rw [List.length_append, List.length_singleton, ← h.outerUse, h.count]
      omega
    · refine h.innerRange.frame fun p hp => Function.update_of_ne ?_ _ _
      show p ≠ t.vtable.minOuterLocation - 1
      omega
    · show RangeOk (Function.update t.vtable.table (t.vtable.minOuterLocation - 1) _) _ _ _
      rw [hslot]
      exact h.outerRange.append houter.marked fun p hp => outerSlot_ne (by omega) (by omega) (Nat.ne_of_lt hp)
    · rw [hgids, hdeleted]
      exact h.innerLog
    · rw [hdeleted]
      exact houter

theorem TableInv.findInner (hlids : LidsOk parser vlabel size)
    (hoffsets : ((arriving parser pid vlabel (gidsOf log)).map parser.getOffset).Nodup)
    (h : TableInv parser pid vlabel size log t inn out outer) (hgid : gid ∈ arriving parser pid vlabel (gidsOf log)) :
    ∃ p, t.vtable.findInner parser (parser.getOffset gid) = some p ∧ valueAt inn p = some gid := by
  have hmem : gid ∈ inn.filterMap Cell.value := by
    rw [h.innerLog.inserted]
    exact hgid
  obtain ⟨q, hq⟩ := exists_valueAt_of_mem hmem
  -- a position that is found holds a vertex with the offset
  have hfound : ∀ p, p < t.vtable.maxInnerLocation → t.vtable.table p < vertexDeleteFlag →
      parser.getOffset (t.vtable.table p) = parser.getOffset gid → valueAt inn p = some gid := by
    intro p hp hdata hsame
    rw [h.innerLocation] at hp
    rcases h.innerRange.entry hp with ⟨t', -, htable, -⟩ | ⟨gid', -, hvalue, htable⟩
    · have hword : t.vtable.table p = t' + vertexDeleteFlag := htable
      omega
    · have hword : t.vtable.table p = innerLidOf parser vlabel gid' := htable
      rw [hword] at hsame
      unfold innerLidOf at hsame
      rw [hlids.offset] at hsame
      have hgid' : gid' ∈ arriving parser pid vlabel (gidsOf log) := by
        rw [← h.innerLog.inserted]
        exact mem_of_valueAt hvalue
      rw [hvalue, List.inj_on_of_nodup_map hoffsets hgid' hgid hsame]
  cases hsearch : t.vtable.findInner parser (parser.getOffset gid) with
  | none =>
    unfold VTable.findInner at hsearch
    have hnone := List.find?_eq_none.mp hsearch q (List.mem_range.mpr ?_)
    · refine absurd (decide_eq_true ?_) hnone
      rcases h.innerRange.entry (valueAt_lt hq) with ⟨t', hmark, -, -⟩ | ⟨gid', -, hvalue, htable⟩
      · rw [cellMarks_of_valueAt hq] at hmark
        cases hmark
      · have hword : t.vtable.table q = innerLidOf parser vlabel gid' := htable
        rw [hvalue] at hq
        rw [hword, Option.some.inj hq]
        exact ⟨hlids.small _, hlids.offset gid⟩
    · rw [h.innerLocation]
      exact valueAt_lt hq
  | some p =>
    refine ⟨p, rfl, ?_⟩
    unfold VTable.findInner at hsearch
    have hp := List.mem_range.mp (List.mem_of_find?_eq_some hsearch)
    have hpred := List.find?_some hsearch
    rw [decide_eq_true_iff] at hpred
    exact hfound p hp hpred.1 hpred.2

theorem deletedOf_concat (cmd : VertexCmd) : deletedOf (log ++ [.deleteVertex cmd]) = deletedOf log ++ [cmd.vid] :=
  deletedOf_append log [.deleteVertex cmd]

theorem gidsOf_delete (cmd : VertexCmd) : gidsOf (log ++ [.deleteVertex cmd]) = gidsOf log := by
  rw [gidsOf_append]
  exact List.append_nil _

theorem metBy_delete (cmd : VertexCmd) : metBy parser pid (log ++ [.deleteVertex cmd]) = metBy parser pid log := by
  rw [metBy_append]
  exact List.append_nil _

theorem TableInv.deleteInner {cmd : VertexCmd} (hlids : LidsOk parser vlabel size)
    (hoffsets : ((arriving parser pid vlabel (gidsOf log)).map parser.getOffset).Nodup)
    (h : TableInv parser pid vlabel size log t inn out outer)
    (hgid : cmd.vid ∈ arriving parser pid vlabel (gidsOf log)) (hlive : cmd.vid ∉ deletedOf log)
    (hfits : inn.length + 1 + out.length ≤ size) :
    ∃ p, TableInv parser pid vlabel size (log ++ [.deleteVertex cmd]) (t.deleteInner parser cmd.vid)
      (inn ++ [Cell.marker p]) out outer := by
  obtain ⟨p, hfind, hvalue⟩ := h.findInner hlids hoffsets hgid
  have hmine : parser.getFid cmd.vid = pid := (of_decide_eq_true (List.mem_filter.mp hgid).2).1
  have hp := valueAt_lt hvalue
  have hin := h.innerLocation
  have hout := h.outerLocation
  have htable := hlids.table
  have hinner := h.innerLog.delete hvalue hlive
  have hvtable : (t.deleteInner parser cmd.vid).vtable = { t.vtable with
      table := Function.update t.vtable.table inn.length (p + vertexDeleteFlag)
      maxInnerLocation := inn.length + 1 } := by
    unfold TableView.deleteInner VTable.deleteInner
    have hflag : p ||| vertexDeleteFlag = p + vertexDeleteFlag := add_deleteFlag (by omega)
    dsimp only
    rw [hfind, hin, ← hflag]
  refine ⟨p, ?_⟩
  constructor
  · rw [hvtable]
    exact h.sameSize
  · rw [hvtable, List.length_append]
    rfl
  · rw [hvtable]
    exact hout
  · rw [List.length_append, List.length_singleton]
    exact hfits
  · show t.inner + (t.deletedInner + 1) = _
    rw [List.length_append, List.length_singleton, ← h.innerUse, Nat.add_assoc]
  · exact h.outerUse
  · rw [hvtable]
    exact h.innerRange.append hinner.marked fun p hp => Nat.ne_of_lt hp
  · rw [hvtable]
    refine h.outerRange.frame fun q hq => Function.update_of_ne ?_ _ _
    unfold VertexIterator.outerSlot
    omega
  · rw [gidsOf_delete, deletedOf_concat]
    refine hinner.congr fun gid _ => ?_
    rw [List.mem_append, List.mem_singleton]
  · rw [deletedOf_concat]
    refine h.outerLog.congr fun ov _ => exists_congr fun gid => and_congr_right fun hov => ?_
    rw [List.mem_append, List.mem_singleton]
    refine ⟨fun hor => hor.elim id fun hsame => ?_, Or.inl⟩
    rw [hsame] at hov
    exact absurd hmine (h.foreign cmd.vid (List.mem_of_getElem? hov))
  · exact ⟨h.known.nodup, h.known.keyLid, h.known.ovg2l⟩
  · exact h.count
  · exact h.foreign
  · rw [metBy_delete]
    exact h.met

theorem TableInv.findOuter {ov : Nat} (hlids : LidsOk parser vlabel size)
    (h : TableInv parser pid vlabel size log t inn out outer) (hov : ov < outer.length) :
    ∃ p, t.vtable.findOuter (outerLidOf parser vlabel ov) = some (VertexIterator.outerSlot size p) ∧
      valueAt out p = some ov := by
  have hcount := h.count
  have huse := h.outerUse
  have hout := h.outerLocation
  have hmem : ov ∈ out.filterMap Cell.value := by
    rw [h.outerLog.inserted]
    exact List.mem_range.mpr hov
  obtain ⟨q, hq⟩ := exists_valueAt_of_mem hmem
  have hlen : size - t.vtable.minOuterLocation = out.length := by omega
  have hsearch : t.vtable.findOuter (outerLidOf parser vlabel ov) =
      ((List.range out.length).find? fun p => decide (t.vtable.table (VertexIterator.outerSlot size p) <
        vertexDeleteFlag ∧ t.vtable.table (VertexIterator.outerSlot size p) = outerLidOf parser vlabel ov)).map
        (VertexIterator.outerSlot size) := by
    unfold VTable.findOuter
    rw [h.sameSize, hlen, List.find?_map]
    rfl
  rw [hsearch]
  cases hfind : (List.range out.length).find? fun p => decide (t.vtable.table (VertexIterator.outerSlot size p) <
      vertexDeleteFlag ∧ t.vtable.table (VertexIterator.outerSlot size p) = outerLidOf parser vlabel ov) with
  | none =>
    have hnone := List.find?_eq_none.mp hfind q (List.mem_range.mpr (valueAt_lt hq))
    refine absurd (decide_eq_true ?_) hnone
    rcases h.outerRange.entry (valueAt_lt hq) with ⟨t', hmark, -, -⟩ | ⟨ov', -, hvalue, htable⟩
    · rw [cellMarks_of_valueAt hq] at hmark
      cases hmark
    · rw [hvalue] at hq
      rw [htable, Option.some.inj hq]
      exact ⟨hlids.small _, rfl⟩
  | some p =>
    refine ⟨p, rfl, ?_⟩
    have hp := List.mem_range.mp (List.mem_of_find?_eq_some hfind)
    have hpred := List.find?_some hfind
    rw [decide_eq_true_iff] at hpred
    rcases h.outerRange.entry hp with ⟨t', -, htable, -⟩ | ⟨ov', -, hvalue, htable⟩
    · rw [htable] at hpred
      omega
    · have hov' : ov' < outer.length := by
        have hmem' := mem_of_valueAt hvalue
        rw [h.outerLog.inserted] at hmem'
        exact List.mem_range.mp hmem'
      rw [htable] at hpred
      rw [hvalue, hlids.outer ov' (by omega) ov (by omega) hpred.2]

theorem TableInv.deleteOuter {cmd : VertexCmd} (hlids : LidsOk parser vlabel size)
    (h : TableInv parser pid vlabel size log t inn out outer) (hforeign : parser.getFid cmd.vid ≠ pid)
    (hmem : cmd.vid ∈ outer) (hlive : cmd.vid ∉ deletedOf log) (hfits : inn.length + (out.length + 1) ≤ size) :
    ∃ p, TableInv parser pid vlabel size (log ++ [.deleteVertex cmd]) (t.deleteOuter parser vlabel cmd.vid)
      inn (out ++ [Cell.marker p]) outer := by
  obtain ⟨ov, hov⟩ := List.mem_iff_getElem?.mp hmem
  have hlt := (List.getElem?_eq_some_iff.mp hov).1
  obtain ⟨p, hfind, hvalue⟩ := h.findOuter hlids hlt
  have hp := valueAt_lt hvalue
  have hin := h.innerLocation
  have hout := h.outerLocation
  have htable := hlids.table
  have hgone : ¬ ∃ gid, outer[ov]? = some gid ∧ gid ∈ deletedOf log := by
    rintro ⟨gid, hgid, hdeleted⟩
    rw [hov] at hgid
    exact hlive (Option.some.inj hgid ▸ hdeleted)
  have houter := h.outerLog.delete hvalue hgone
  have hslot : t.vtable.minOuterLocation - 1 = VertexIterator.outerSlot size out.length := by
    unfold VertexIterator.outerSlot
    omega
  have hview : t.deleteOuter parser vlabel cmd.vid = { t with
      vtable := { t.vtable with
        table := Function.update t.vtable.table (VertexIterator.outerSlot size out.length)
          (VertexIterator.outerSlot size p + vertexDeleteFlag)
        minOuterLocation := t.vtable.minOuterLocation - 1 }
      deletedOuter := t.deletedOuter + 1 } := by
    unfold TableView.deleteOuter VTable.deleteOuter
    rw [(h.known.keyLid cmd.vid ov).mpr hov]
    dsimp only
    have hsmall : VertexIterator.outerSlot size p < vertexDeleteFlag := by
      unfold VertexIterator.outerSlot
      omega
    rw [hfind, ← hslot, ← add_deleteFlag hsmall]
  rw [hview]
  refine ⟨p, ?_⟩
  constructor
  · exact h.sameSize
  · exact hin
  · show t.vtable.minOuterLocation - 1 + _ = size
    rw [List.length_append, List.length_singleton]
    omega
  · rw [List.length_append, List.length_singleton]
    exact hfits
  · exact h.innerUse
  · show t.outer + (t.deletedOuter + 1) = _
    rw [List.length_append, List.length_singleton, ← h.outerUse, Nat.add_assoc]
  · refine h.innerRange.frame fun q hq => Function.update_of_ne ?_ _ _
    show q ≠ VertexIterator.outerSlot size out.length
    unfold VertexIterator.outerSlot
    omega
  · exact h.outerRange.append houter.marked fun q hq => outerSlot_ne (by omega) (by omega) (Nat.ne_of_lt hq)
  · rw [gidsOf_delete, deletedOf_concat]
    refine h.innerLog.congr fun gid hgid => ?_
    rw [List.mem_append, List.mem_singleton]
    refine ⟨fun hor => hor.elim id fun hsame => ?_, Or.inl⟩
    rw [hsame] at hgid
    exact absurd (of_decide_eq_true (List.mem_filter.mp hgid).2).1 hforeign
  · rw [deletedOf_concat]
    refine houter.congr fun ov' hov' => ?_
    constructor
    · rintro ⟨gid, hgid, hdeleted⟩
      rcases List.mem_append.mp hdeleted with hold | hnew
      · exact Or.inl ⟨gid, hgid, hold⟩
      · rw [List.mem_singleton.mp hnew] at hgid
        have hlt' := (List.getElem?_eq_some_iff.mp hgid).1
        exact Or.inr ((List.getElem?_inj hlt' h.known.nodup).mp (hgid.trans hov.symm))
    · rintro (⟨gid, hgid, hold⟩ | rfl)
      · exact ⟨gid, hgid, List.mem_append_left _ hold⟩
      · exact ⟨cmd.vid, hov, List.mem_append_right _ (List.mem_singleton.mpr rfl)⟩
  · exact ⟨h.known.nodup, h.known.keyLid, h.known.ovg2l⟩
  · exact h.count
  · exact h.foreign
  · rw [metBy_delete]
    exact h.met

end steps

/-! ### The run -/

def TableView.use (t : TableView) : Nat := t.inner + t.deletedInner + (t.outer + t.deletedOuter)

/-- Every vertex is inserted once, and deleted at most once, when it is there; an outer vertex of the partition is not
met for the first time behind its deletion. -/
structure OncePerVertex (parser : IdParser) (pid : Nat) (log : List Record) : Prop where
  inserted : ∀ vlabel, ((arriving parser pid vlabel (gidsOf log)).map parser.getOffset).Nodup
  deleted : ∀ before cmd after, log = before ++ .deleteVertex cmd :: after → cmd.vid ∉ deletedOf before ∧
    (parser.getFid cmd.vid = pid → cmd.vid ∈ gidsOf before) ∧
    (parser.getFid cmd.vid ≠ pid → cmd.vid ∈ metBy parser pid log → cmd.vid ∈ metBy parser pid before)

section run
variable {parser : IdParser} {pid vlabel size gid : Nat} {log after : List Record} {t t' : TableView}
  {inn out : List (Cell Nat)} {outer : List Nat} {r : Record}

theorem use_le (h : t.apply parser pid vlabel r = .ok t') : t.use ≤ t'.use := by
  have hsame : (.ok t : Except StoreFault TableView) = .ok t' → t.use ≤ t'.use := by
    intro heq
    rw [← Except.ok.inj heq]
  cases r with
  | addVertex cmd =>
    unfold TableView.apply at h
    dsimp only at h
    split at h
    · unfold TableView.insert at h
      obtain ⟨vtable, -, h⟩ := bind_eq_ok h
      rw [← Except.ok.inj h]
      unfold TableView.use
      dsimp only
      omega
    · exact hsame h
  | addEdge cmd =>
    unfold TableView.apply at h
    dsimp only at h
    split at h
    · split at h
      · unfold TableView.meet at h
        split at h
        · exact hsame h
        · dsimp only at h
          obtain ⟨vtable, -, h⟩ := bind_eq_ok h
          rw [← Except.ok.inj h]
          unfold TableView.use
          dsimp only
          omega
      · exact hsame h
    · exact hsame h
  | deleteVertex cmd =>
    unfold TableView.apply at h
    dsimp only at h
    split at h
    · split at h
      · rw [← Except.ok.inj h]
        unfold TableView.use TableView.deleteInner
        dsimp only
        omega
      · rw [← Except.ok.inj h]
        unfold TableView.deleteOuter
        split
        · exact Nat.le_refl _
        · unfold TableView.use
          dsimp only
          omega
    · exact hsame h
  | updateVertex cmd => exact hsame h
  | deleteEdge cmd => exact hsame h
  | bulkloadEnd epoch => exact hsame h
  | unsupported op => exact hsame h

theorem use_le_run {records : List Record} (h : records.foldlM (TableView.apply parser pid vlabel) t = .ok t') :
    t.use ≤ t'.use := by
  induction records generalizing t with
  | nil => rw [← Except.ok.inj h]
  | cons r records ih =>
    rw [List.foldlM_cons] at h
    obtain ⟨t1, hfirst, hrest⟩ := bind_eq_ok h
    exact Nat.le_trans (use_le hfirst) (ih hrest)

theorem exists_delete (h : gid ∈ deletedOf log) :
    ∃ before cmd rest, log = before ++ .deleteVertex cmd :: rest ∧ cmd.vid = gid := by
  unfold deletedOf at h
  obtain ⟨r, hmem, hr⟩ := List.mem_filterMap.mp h
  obtain ⟨before, rest, hsplit⟩ := List.append_of_mem hmem
  cases r with
  | deleteVertex cmd => exact ⟨before, cmd, rest, hsplit, Option.some.inj hr⟩
  | _ => cases hr

theorem mem_arriving {gids : List Nat} : gid ∈ arriving parser pid vlabel gids ↔
    gid ∈ gids ∧ parser.getFid gid = pid ∧ parser.getLabelId gid = vlabel := by
  unfold arriving
  rw [List.mem_filter, decide_eq_true_iff]

theorem OncePerVertex.inner_live {cmd : VertexCmd} (hlog : OncePerVertex parser pid (log ++ .addVertex cmd :: after))
    (hmine : parser.getFid cmd.vid = pid) :
    cmd.vid ∉ gidsOf log ∧ cmd.vid ∉ deletedOf log := by
  have hnot : cmd.vid ∉ gidsOf log := by
    intro hmem
    have hnodup := hlog.inserted (parser.getLabelId cmd.vid)
    have hgids : gidsOf (log ++ .addVertex cmd :: after) = gidsOf log ++ cmd.vid :: gidsOf after := gidsOf_append _ _
    rw [hgids, arriving_append, List.map_append, List.nodup_append] at hnodup
    refine hnodup.2.2 (parser.getOffset cmd.vid) (List.mem_map_of_mem (mem_arriving.mpr ⟨hmem, hmine, rfl⟩))
      (parser.getOffset cmd.vid) (List.mem_map_of_mem (mem_arriving.mpr ⟨List.mem_cons_self, hmine, rfl⟩)) rfl
  refine ⟨hnot, fun hmem => ?_⟩
  obtain ⟨before, del, rest, rfl, hvid⟩ := exists_delete hmem
  have hbefore := (hlog.deleted before del (rest ++ .addVertex cmd :: after) (by simp)).2.1 (by rw [hvid]; exact hmine)
  rw [hvid] at hbefore
  refine hnot ?_
  rw [gidsOf_append]
  exact List.mem_append_left _ hbefore

theorem OncePerVertex.outer_live {cmd : EdgeCmd} (hlog : OncePerVertex parser pid (log ++ .addEdge cmd :: after))
    (hsome : TableView.outerEnd parser pid cmd.toRecord = some gid) (hnew : gid ∉ metBy parser pid log) :
    gid ∉ deletedOf log := by
  intro hmem
  obtain ⟨before, del, rest, rfl, hvid⟩ := exists_delete hmem
  have hmet : gid ∈ metBy parser pid (before ++ .deleteVertex del :: rest ++ .addEdge cmd :: after) := by
    rw [metBy_append, List.mem_append]
    refine Or.inr ?_
    unfold metBy
    show gid ∈ (cmd.toRecord :: edgesOf after).filterMap _
    rw [List.filterMap_cons, hsome]
    exact List.mem_cons_self
  have hbefore := (hlog.deleted before del (rest ++ .addEdge cmd :: after) (by simp)).2.2
    (by rw [hvid]; exact outerEnd_foreign hsome) (by rw [hvid]; exact hmet)
  rw [hvid] at hbefore
  refine hnew ?_
  rw [metBy_append]
  exact List.mem_append_left _ hbefore

theorem OncePerVertex.of_append (h : OncePerVertex parser pid (log ++ after)) : OncePerVertex parser pid log := by
  refine ⟨fun i => ?_, fun before cmd rest hsplit => ?_⟩
  · have hnodup := h.inserted i
    rw [gidsOf_append, arriving_append, List.map_append] at hnodup
    exact (List.nodup_append.mp hnodup).1
  · have hdeleted := h.deleted before cmd (rest ++ after) (by rw [hsplit]; simp)
    refine ⟨hdeleted.1, hdeleted.2.1, fun hforeign hmet => hdeleted.2.2 hforeign ?_⟩
    rw [metBy_append]
    exact List.mem_append_left _ hmet

def Grows (parser : IdParser) (pid vlabel size : Nat) (log : List Record) (t : TableView) (inn out : List (Cell Nat))
    (outer : List Nat) : Prop :=
  ∃ inn' out' outer', TableInv parser pid vlabel size log t inn' out' outer' ∧ inn <+: inn' ∧ out <+: out' ∧
    outer <+: outer'

theorem TableInv.grows (h : TableInv parser pid vlabel size log t inn out outer) :
    Grows parser pid vlabel size log t inn out outer :=
  ⟨inn, out, outer, h, List.prefix_rfl, List.prefix_rfl, List.prefix_rfl⟩

theorem TableInv.step (hlids : LidsOk parser vlabel size) (hlog : OncePerVertex parser pid (log ++ r :: after))
    (h : TableInv parser pid vlabel size log t inn out outer) (hstep : t.apply parser pid vlabel r = .ok t')
    (hfits : t'.use ≤ size) : Grows parser pid vlabel size (log ++ [r]) t' inn out outer := by
  have hother : arriving parser pid vlabel (gidsOf [r]) = [] → deletedOf [r] = [] → metBy parser pid [r] = [] →
      (.ok t : Except StoreFault TableView) = .ok t' → Grows parser pid vlabel size (log ++ [r]) t' inn out outer := by
    intro hgids hdeleted hmet heq
    rw [← Except.ok.inj heq]
    refine (h.skip hgids (fun gid hgid => ?_) fun gid hgid => ?_).grows
    · rw [hdeleted] at hgid
      cases hgid
    · rw [hmet] at hgid
      cases hgid
  have hinnerUse := h.innerUse
  have houterUse := h.outerUse
  cases r with
  | addVertex cmd =>
    unfold TableView.apply at hstep
    dsimp only at hstep
    split at hstep
    · rename_i hmine
      obtain ⟨hnew, hlive⟩ := hlog.inner_live hmine.1
      exact ⟨_, _, _, h.insert hmine (fun hmem => hnew (mem_arriving.mp hmem).1) hlive hstep, List.prefix_append _ _,
        List.prefix_rfl, List.prefix_rfl⟩
    · rename_i hnot
      refine hother ?_ rfl rfl hstep
      show arriving parser pid vlabel [cmd.vid] = []
      rw [arriving_singleton, if_neg hnot]
  | addEdge cmd =>
    have hskip : (∀ gid, TableView.outerEnd parser pid cmd.toRecord = some gid → parser.getLabelId gid = vlabel →
        gid ∈ outer) → (.ok t : Except StoreFault TableView) = .ok t' →
        Grows parser pid vlabel size (log ++ [.addEdge cmd]) t' inn out outer := by
      intro hmet heq
      rw [← Except.ok.inj heq]
      refine (h.skip rfl (fun gid hgid => (by cases hgid)) fun gid hgid hlabel => ?_).grows
      unfold metBy at hgid
      obtain ⟨e, he, hend⟩ := List.mem_filterMap.mp hgid
      have hedge : e = cmd.toRecord := List.mem_singleton.mp he
      rw [hedge] at hend
      exact hmet gid hend hlabel
    unfold TableView.apply at hstep
    dsimp only at hstep
    split at hstep
    · rename_i gid hsome
      split at hstep
      · rename_i hlabel
        cases hknown : t.keyLid gid with
        | some ov =>
          refine hskip (fun gid' hsome' _ => ?_) ?_
          · rw [← Option.some.inj (hsome.symm.trans hsome')]
            exact List.mem_of_getElem? ((h.known.keyLid gid ov).mp hknown)
          · unfold TableView.meet at hstep
            rw [hknown] at hstep
            exact hstep
        | none =>
          have hnew : gid ∉ metBy parser pid log := by
            intro hmem
            obtain ⟨ov, hov⟩ := List.mem_iff_getElem?.mp ((h.met gid).mpr ⟨hmem, hlabel⟩)
            rw [(h.known.keyLid gid ov).mpr hov] at hknown
            cases hknown
          exact ⟨_, _, _, h.meetNew hsome hlabel hknown (hlog.outer_live hsome hnew) hstep, List.prefix_rfl,
            List.prefix_append _ _, List.prefix_append _ _⟩
      · rename_i hlabel
        refine hskip (fun gid' hsome' hlabel' => ?_) hstep
        rw [← Option.some.inj (hsome.symm.trans hsome')] at hlabel'
        exact absurd hlabel' hlabel
    · rename_i hnone
      refine hskip (fun gid' hsome' _ => ?_) hstep
      rw [hnone] at hsome'
      cases hsome'
  | deleteVertex cmd =>
    obtain ⟨honce, hthere, hmetBefore⟩ := hlog.deleted log cmd after rfl
    have hskip : cmd.vid ∉ arriving parser pid vlabel (gidsOf log) ∧ cmd.vid ∉ outer →
        Grows parser pid vlabel size (log ++ [.deleteVertex cmd]) t inn out outer := by
      intro hnot
      refine (h.skip rfl (fun gid hgid => ?_) fun gid hgid => (by cases hgid)).grows
      have hvid : gid = cmd.vid := List.mem_singleton.mp hgid
      rw [hvid]
      exact hnot
    unfold TableView.apply at hstep
    dsimp only at hstep
    split at hstep
    · rename_i hlabel
      split at hstep
      · rename_i hmine
        have ht := (Except.ok.inj hstep).symm
        have hgid : cmd.vid ∈ arriving parser pid vlabel (gidsOf log) := mem_arriving.mpr ⟨hthere hmine, hmine, hlabel⟩
        have hoffsets : ((arriving parser pid vlabel (gidsOf log)).map parser.getOffset).Nodup := by
          have hnodup := hlog.inserted vlabel
          rw [gidsOf_append, arriving_append, List.map_append] at hnodup
          exact (List.nodup_append.mp hnodup).1
        rw [ht] at hfits ⊢
        have hroom : inn.length + 1 + out.length ≤ size := by
          have huse : (t.deleteInner parser cmd.vid).use =
              t.inner + (t.deletedInner + 1) + (t.outer + t.deletedOuter) := rfl
          omega
        obtain ⟨p, hnext⟩ := h.deleteInner hlids hoffsets hgid honce hroom
        exact ⟨_, _, _, hnext, List.prefix_append _ _, List.prefix_rfl, List.prefix_rfl⟩
      · rename_i hforeign
        have ht := (Except.ok.inj hstep).symm
        rw [ht] at hfits ⊢
        cases hknown : t.keyLid cmd.vid with
        | none =>
          have hsame : t.deleteOuter parser vlabel cmd.vid = t := by
            unfold TableView.deleteOuter
            rw [hknown]
          rw [hsame]
          refine hskip ⟨fun hmem => hforeign (mem_arriving.mp hmem).2.1, fun hmem => ?_⟩
          obtain ⟨ov, hov⟩ := List.mem_iff_getElem?.mp hmem
          rw [(h.known.keyLid cmd.vid ov).mpr hov] at hknown
          cases hknown
        | some ov =>
          have hmem := List.mem_of_getElem? ((h.known.keyLid cmd.vid ov).mp hknown)
          have huse : (t.deleteOuter parser vlabel cmd.vid).use =
              t.inner + t.deletedInner + (t.outer + (t.deletedOuter + 1)) := by
            unfold TableView.deleteOuter
            rw [hknown]
            rfl
          have hroom : inn.length + (out.length + 1) ≤ size := by omega
          obtain ⟨p, hnext⟩ := h.deleteOuter hlids hforeign hmem honce hroom
          exact ⟨_, _, _, hnext, List.prefix_rfl, List.prefix_append _ _, List.prefix_rfl⟩
    · rename_i hlabel
      rw [← Except.ok.inj hstep]
      refine hskip ⟨fun hmem => hlabel (mem_arriving.mp hmem).2.2, fun hmem => hlabel ((h.met cmd.vid).mp hmem).2⟩
  | updateVertex cmd => exact hother rfl rfl rfl hstep
  | deleteEdge cmd => exact hother rfl rfl rfl hstep
  | bulkloadEnd epoch => exact hother rfl rfl rfl hstep
  | unsupported op => exact hother rfl rfl rfl hstep

theorem TableInv.run {records : List Record} (hlids : LidsOk parser vlabel size)
    (hlog : OncePerVertex parser pid (log ++ records)) (h : TableInv parser pid vlabel size log t inn out outer)
    (hrun : records.foldlM (TableView.apply parser pid vlabel) t = .ok t') (hfits : t'.use ≤ size) :
    Grows parser pid vlabel size (log ++ records) t' inn out outer := by
  induction records generalizing t log inn out outer with
  | nil =>
    rw [← Except.ok.inj hrun, List.append_nil]
    exact h.grows
  | cons r records ih =>
    rw [List.foldlM_cons] at hrun
    obtain ⟨t1, hfirst, hrest⟩ := bind_eq_ok hrun
    have hsplit : log ++ r :: records = log ++ [r] ++ records := by simp
    obtain ⟨inn1, out1, outer1, h1, hinn1, hout1, houter1⟩ :=
      h.step hlids hlog hfirst (Nat.le_trans (use_le_run hrest) hfits)
    rw [hsplit] at hlog ⊢
    obtain ⟨inn2, out2, outer2, h2, hinn2, hout2, houter2⟩ := ih hlog h1 hrest
    exact ⟨inn2, out2, outer2, h2, hinn1.trans hinn2, hout1.trans hout2, houter1.trans houter2⟩

end run

end Gart.Store
