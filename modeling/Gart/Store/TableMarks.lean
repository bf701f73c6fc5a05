import Gart.Store.TableWords

/-!
# The markers of a vertex table

However often the vertices of a label are deleted, a delete marker names an entry with the local id of a deleted vertex.
-/

namespace Gart.Store
open Gart.Outcome Gart.Fragment

/-- The markers of a part name entries of vertices that are gone. -/
def MarksGone (table slot lid : Nat → Nat) (gone : Nat → Prop) (length : Nat) : Prop :=
  ∀ p < length, vertexDeleteFlag ≤ table (slot p) →
    ∃ q < length, ∃ i, gone i ∧ table (slot p) = slot q + vertexDeleteFlag ∧ table (slot q) = lid i

section part
variable {table table' slot lid : Nat → Nat} {gone gone' : Nat → Prop} {length length' : Nat}

theorem marksGone_zero : MarksGone table slot lid gone 0 := fun p hp => absurd hp (Nat.not_lt_zero p)

theorem MarksGone.frame (h : MarksGone table slot lid gone length)
    (hsame : ∀ p < length, table' (slot p) = table (slot p)) (hgone : ∀ i, gone i → gone' i) :
    MarksGone table' slot lid gone' length := by
  intro p hp hmark
  rw [hsame p hp] at hmark
  obtain ⟨q, hq, i, hi, hword, hlid⟩ := h p hp hmark
  refine ⟨q, hq, i, hgone i hi, ?_, ?_⟩
  · rw [hsame p hp]
    exact hword
  · rw [hsame q hq]
    exact hlid

theorem MarksGone.push (h : MarksGone table' slot lid gone length) (hlength : length' = length + 1)
    (hlast : vertexDeleteFlag ≤ table' (slot length) → ∃ q < length, ∃ i, gone i ∧
      table' (slot length) = slot q + vertexDeleteFlag ∧ table' (slot q) = lid i) :
    MarksGone table' slot lid gone length' := by
  intro p hp hmark
  rw [hlength] at hp ⊢
  rcases Nat.lt_succ_iff_lt_or_eq.mp hp with hp | rfl
  · obtain ⟨q, hq, hrest⟩ := h p hp hmark
    exact ⟨q, Nat.lt_succ_of_lt hq, hrest⟩
  · obtain ⟨q, hq, hrest⟩ := hlast hmark
    exact ⟨q, Nat.lt_succ_of_lt hq, hrest⟩

end part

section steps
variable {parser : IdParser} {pid vlabel size gid : Nat} {log after : List Record} {t t' : TableView}
  {outer : List Nat} {r : Record}

/-! ### The outer vertices -/

theorem metBy_singleton {cmd : EdgeCmd} (hgid : gid ∈ metBy parser pid [.addEdge cmd]) :
    TableView.outerEnd parser pid cmd.toRecord = some gid := by
  obtain ⟨e, he, hsome⟩ := List.mem_filterMap.mp hgid
  rw [List.mem_singleton.mp he] at hsome
  exact hsome

theorem MetMaps.step (h : MetMaps parser pid vlabel log t outer) (hstep : t.apply parser pid vlabel r = .ok t') :
    ∃ outer', MetMaps parser pid vlabel (log ++ [r]) t' outer' ∧ outer <+: outer' := by
  have hskip : metBy parser pid [r] = [] → t'.keyLid = t.keyLid ∧ t'.ovg2l = t.ovg2l ∧ t'.outer = t.outer →
      ∃ outer', MetMaps parser pid vlabel (log ++ [r]) t' outer' ∧ outer <+: outer' := by
    intro hmet hsame
    refine ⟨outer, h.skip hsame fun gid hgid => ?_, List.prefix_rfl⟩
    rw [hmet] at hgid
    cases hgid
  have hstay : metBy parser pid [r] = [] → (.ok t : Except StoreFault TableView) = .ok t' →
      ∃ outer', MetMaps parser pid vlabel (log ++ [r]) t' outer' ∧ outer <+: outer' := by
    intro hmet heq
    rw [← Except.ok.inj heq]
    rw [← Except.ok.inj heq] at hskip
    exact hskip hmet ⟨rfl, rfl, rfl⟩
  cases r with
  | addVertex cmd =>
    unfold TableView.apply at hstep
    dsimp only at hstep
    split at hstep
    · unfold TableView.insert at hstep
      obtain ⟨vtable, -, hstep⟩ := bind_eq_ok hstep
      rw [← Except.ok.inj hstep] at hskip ⊢
      exact hskip rfl ⟨rfl, rfl, rfl⟩
    · exact hstay rfl hstep
  | deleteVertex cmd =>
    unfold TableView.apply at hstep
    dsimp only at hstep
    split at hstep
    · split at hstep
      · rw [← Except.ok.inj hstep] at hskip ⊢
        exact hskip rfl ⟨rfl, rfl, rfl⟩
      · rw [← Except.ok.inj hstep] at hskip ⊢
        refine hskip rfl ?_
        unfold TableView.deleteOuter
        split <;> exact ⟨rfl, rfl, rfl⟩
    · exact hstay rfl hstep
  | addEdge cmd =>
    have hknown : (∀ gid, TableView.outerEnd parser pid cmd.toRecord = some gid → parser.getLabelId gid = vlabel →
        gid ∈ outer) → (.ok t : Except StoreFault TableView) = .ok t' →
        ∃ outer', MetMaps parser pid vlabel (log ++ [.addEdge cmd]) t' outer' ∧ outer <+: outer' := by
      intro hmet heq
      rw [← Except.ok.inj heq]
      exact ⟨outer, h.skip ⟨rfl, rfl, rfl⟩ fun gid hgid => hmet gid (metBy_singleton hgid), List.prefix_rfl⟩
    unfold TableView.apply at hstep
    dsimp only at hstep
    split at hstep
    · rename_i gid hsome
      split at hstep
      · rename_i hlabel
        cases hkey : t.keyLid gid with
        | some ov =>
          unfold TableView.meet at hstep
          rw [hkey] at hstep
          refine hknown (fun gid' hsome' _ => ?_) hstep
          rw [← Option.some.inj (hsome.symm.trans hsome')]
          exact List.mem_of_getElem? ((h.known.keyLid gid ov).mp hkey)
        | none => exact ⟨outer ++ [gid], h.meetNew hsome hlabel hkey hstep, List.prefix_append _ _⟩
      · rename_i hlabel
        refine hknown (fun gid' hsome' hlabel' => ?_) hstep
        rw [← Option.some.inj (hsome.symm.trans hsome')] at hlabel'
        exact absurd hlabel' hlabel
    · rename_i hnone
      refine hknown (fun gid' hsome' _ => ?_) hstep
      rw [hnone] at hsome'
      cases hsome'
  | updateVertex cmd => exact hstay rfl hstep
  | deleteEdge cmd => exact hstay rfl hstep
  | bulkloadEnd epoch => exact hstay rfl hstep
  | unsupported op => exact hstay rfl hstep

/-! ### The invariant -/

def InnerGone (parser : IdParser) (pid vlabel : Nat) (log : List Record) (offset : Nat) : Prop :=
  ∃ gid ∈ deletedOf log, gid ∈ arriving parser pid vlabel (gidsOf log) ∧ parser.getOffset gid = offset

def OuterGone (log : List Record) (outer : List Nat) (ov : Nat) : Prop :=
  ∃ gid ∈ deletedOf log, outer[ov]? = some gid

theorem InnerGone.append {i : Nat} (h : InnerGone parser pid vlabel log i) (more : List Record) :
    InnerGone parser pid vlabel (log ++ more) i := by
  obtain ⟨gid, hgone, hmem, hi⟩ := h
  refine ⟨gid, ?_, ?_, hi⟩
  · rw [deletedOf_append]
    exact List.mem_append_left _ hgone
  · rw [gidsOf_append, arriving_append]
    exact List.mem_append_left _ hmem

theorem OuterGone.append {ov : Nat} (h : OuterGone log outer ov) (more : List Record) :
    OuterGone (log ++ more) outer ov := by
  obtain ⟨gid, hgone, hov⟩ := h
  refine ⟨gid, ?_, hov⟩
  rw [deletedOf_append]
  exact List.mem_append_left _ hgone

theorem OuterGone.grow {ov : Nat} {outer' : List Nat} (h : OuterGone log outer ov) (houter : outer <+: outer') :
    OuterGone log outer' ov := by
  obtain ⟨gid, hgone, hov⟩ := h
  exact ⟨gid, hgone, getElem?_of_isPrefix houter hov⟩

structure TableMarks (parser : IdParser) (pid vlabel size : Nat) (log : List Record) (t : TableView)
    (outer : List Nat) : Prop where
  words : TableWords parser vlabel size t
  count : CountsArriving parser pid vlabel log t
  maps : MetMaps parser pid vlabel log t outer
  innerMarks : MarksGone t.vtable.table id (parser.generateId 0 vlabel) (InnerGone parser pid vlabel log)
    (t.inner + t.deletedInner)
  outerMarks : MarksGone t.vtable.table (VertexIterator.outerSlot size) (outerLidOf parser vlabel) (OuterGone log outer)
    (t.outer + t.deletedOuter)

theorem tableMarks_create (blank : Nat → Nat) (ht : t = {
      vtable := VTable.create blank size, keyLid := fun _ => none, ovg2l := fun _ => none, ovl2g := fun _ => 0
      deletedInner := 0, deletedOuter := 0, inner := 0, outer := 0 }) :
    TableMarks parser pid vlabel size [] t [] := by
  obtain ⟨hwords, hcount⟩ := @tableWords_create parser pid vlabel size t blank ht
  rw [ht] at hwords hcount ⊢
  refine ⟨hwords, hcount, ⟨⟨List.nodup_nil, fun gid ov => by simp, fun gid lid => by simp⟩, rfl, ?_, ?_⟩,
      marksGone_zero,
    marksGone_zero⟩
  · intro gid hgid
    cases hgid
  · intro gid
    constructor
    · intro hmem
      cases hmem
    · rintro ⟨hmem, -⟩
      cases hmem

theorem CountsArriving.offset (h : CountsArriving parser pid vlabel log t) (hdense : DenseOffsets parser (gidsOf log))
    {i : Nat} (hi : i < t.inner) :
    ∃ gid ∈ arriving parser pid vlabel (gidsOf log), parser.getOffset gid = i := by
  have hmem : i ∈ (arriving parser pid vlabel (gidsOf log)).map parser.getOffset := by
    rw [hdense pid vlabel, List.mem_range, ← h]
    exact hi
  exact List.mem_map.mp hmem

theorem TableMarks.deletedInner {cmd : VertexCmd} (hlids : LidsOk parser vlabel size)
    (hdense : DenseOffsets parser (gidsOf log)) (h : TableMarks parser pid vlabel size log t outer)
    (hgid : cmd.vid ∈ arriving parser pid vlabel (gidsOf log)) :
    MarksGone (t.deleteInner parser cmd.vid).vtable.table id (parser.generateId 0 vlabel)
      (InnerGone parser pid vlabel (log ++ [.deleteVertex cmd])) (t.inner + t.deletedInner + 1) := by
  have hoffset : parser.getOffset cmd.vid < t.inner := by
    rw [h.count]
    exact hdense.lt hgid
  have hgone : InnerGone parser pid vlabel (log ++ [.deleteVertex cmd]) (parser.getOffset cmd.vid) := by
    refine ⟨cmd.vid, ?_, ?_, rfl⟩
    · rw [deletedOf_concat]
      exact List.mem_append_right _ (List.mem_singleton.mpr rfl)
    · rw [gidsOf_delete]
      exact hgid
  have hroom := h.words.room
  have htable := hlids.table
  obtain ⟨q, hq, hdata, hfound, hvtable⟩ := h.words.foundInner hlids hoffset
  rw [hvtable, h.words.innerLocation]
  have hsame : ∀ p < t.inner + t.deletedInner, Function.update t.vtable.table (t.inner + t.deletedInner)
      (q ||| vertexDeleteFlag) p = t.vtable.table p := fun p hp => Function.update_of_ne (Nat.ne_of_lt hp) _ _
  refine (h.innerMarks.frame hsame fun i hi => hi.append _).push rfl fun _ =>
    ⟨q, hq, parser.getOffset cmd.vid, hgone, ?_, ?_⟩
  · have huse : t.use = t.inner + t.deletedInner + (t.outer + t.deletedOuter) := rfl
    show Function.update t.vtable.table (t.inner + t.deletedInner) (q ||| vertexDeleteFlag)
        (t.inner + t.deletedInner) = _
    rw [Function.update_self]
    exact add_deleteFlag (by omega)
  · refine (hsame q hq).trans ?_
    rcases h.words.inner.word q hq with hmark | ⟨i, hi, hword⟩
    · exact absurd hdata (Nat.not_lt.mpr hmark)
    · have hword' : t.vtable.table q = parser.generateId 0 vlabel i := hword
      obtain ⟨gid', -, hoffset'⟩ := h.count.offset hdense hi
      rw [hword', ← hoffset', hlids.offset] at hfound
      rw [hword', ← hoffset', hfound]

theorem TableMarks.deletedOuter {cmd : VertexCmd} {ov : Nat} (hlids : LidsOk parser vlabel size)
    (h : TableMarks parser pid vlabel size log t outer) (hknown : t.keyLid cmd.vid = some ov)
    (hfits : (t.deleteOuter parser vlabel cmd.vid).use ≤ size) :
    MarksGone (t.deleteOuter parser vlabel cmd.vid).vtable.table (VertexIterator.outerSlot size)
      (outerLidOf parser vlabel) (OuterGone (log ++ [.deleteVertex cmd]) outer) (t.outer + t.deletedOuter + 1) := by
  have hgone : OuterGone (log ++ [.deleteVertex cmd]) outer ov := by
    refine ⟨cmd.vid, ?_, (h.maps.known.keyLid cmd.vid ov).mp hknown⟩
    rw [deletedOf_concat]
    exact List.mem_append_right _ (List.mem_singleton.mpr rfl)
  have houter := h.words.outerLocation
  have htable := hlids.table
  obtain ⟨q, hq, hlid, hdeleted⟩ := h.words.foundOuter hlids hknown
  rw [hdeleted] at hfits ⊢
  have huse : t.inner + t.deletedInner + (t.outer + (t.deletedOuter + 1)) ≤ size := hfits
  have hslot : t.vtable.minOuterLocation - 1 = VertexIterator.outerSlot size (t.outer + t.deletedOuter) := by
    unfold VertexIterator.outerSlot
    omega
  dsimp only
  rw [hslot]
  have hsame : ∀ p < t.outer + t.deletedOuter, Function.update t.vtable.table
      (VertexIterator.outerSlot size (t.outer + t.deletedOuter)) (VertexIterator.outerSlot size q ||| vertexDeleteFlag)
      (VertexIterator.outerSlot size p) = t.vtable.table (VertexIterator.outerSlot size p) :=
    fun p hp => Function.update_of_ne (outerSlot_ne (by omega) (by omega) (Nat.ne_of_lt hp)) _ _
  refine (h.outerMarks.frame hsame fun i hi => hi.append _).push rfl fun _ => ⟨q, hq, ov, hgone, ?_, ?_⟩
  · rw [Function.update_self]
    refine add_deleteFlag ?_
    unfold VertexIterator.outerSlot
    omega
  · exact (hsame q hq).trans hlid

theorem TableMarks.step (hlids : LidsOk parser vlabel size) (hdense : DenseOffsets parser (gidsOf (log ++ r :: after)))
    (hdeletes : DeletesInserted parser pid (log ++ r :: after)) (h : TableMarks parser pid vlabel size log t outer)
    (hstep : t.apply parser pid vlabel r = .ok t') (hfits : t'.use ≤ size) :
    ∃ outer', TableMarks parser pid vlabel size (log ++ [r]) t' outer' := by
  obtain ⟨hwords, hgrow, hcount⟩ := h.words.step hlids hdense hdeletes h.count hstep hfits
  obtain ⟨outer', hmaps, houter⟩ := h.maps.step hstep
  have hin : MarksGone t'.vtable.table id (parser.generateId 0 vlabel) (InnerGone parser pid vlabel (log ++ [r]))
      (t.inner + t.deletedInner) := h.innerMarks.frame hgrow.inner fun i hi => hi.append _
  have hout : MarksGone t'.vtable.table (VertexIterator.outerSlot size) (outerLidOf parser vlabel)
      (OuterGone (log ++ [r]) outer') (t.outer + t.deletedOuter) :=
    h.outerMarks.frame hgrow.outer fun ov hov => (hov.append _).grow houter
  have hsame : (.ok t : Except StoreFault TableView) = .ok t' →
      ∃ outer', TableMarks parser pid vlabel size (log ++ [r]) t' outer' := by
    intro heq
    rw [← Except.ok.inj heq] at hwords hcount hmaps hin hout ⊢
    exact ⟨outer', hwords, hcount, hmaps, hin, hout⟩
  cases r with
  | addVertex cmd =>
    unfold TableView.apply at hstep
    dsimp only at hstep
    split at hstep
    · -- the last entry of the inner part is the new vertex
      unfold TableView.insert at hstep
      obtain ⟨vtable, hadd, hstep⟩ := bind_eq_ok hstep
      have ht := (Except.ok.inj hstep).symm
      unfold VTable.addInner at hadd
      split at hadd
      · cases hadd
      · rw [← Except.ok.inj hadd, h.words.innerLocation] at ht
        subst ht
        refine ⟨outer', hwords, hcount, hmaps, ?_, hout⟩
        refine hin.push (Nat.add_right_comm _ _ _) fun hmark => absurd hmark (Nat.not_le.mpr ?_)
        show Function.update t.vtable.table (t.inner + t.deletedInner) _ (t.inner + t.deletedInner) < _
        rw [Function.update_self]
        exact hlids.small _
    · exact hsame hstep
  | addEdge cmd =>
    unfold TableView.apply at hstep
    dsimp only at hstep
    split at hstep
    · rename_i gid hsome
      split at hstep
      · unfold TableView.meet at hstep
        split at hstep
        · exact hsame hstep
        · -- the last entry of the outer part is the new vertex
          dsimp only at hstep
          obtain ⟨vtable, hadd, hstep⟩ := bind_eq_ok hstep
          have ht := (Except.ok.inj hstep).symm
          have hlocation := h.words.outerLocation
          unfold VTable.addOuter at hadd
          split at hadd
          · cases hadd
          · have huse : t'.use = t.use + 1 := by
              rw [ht]
              unfold TableView.use
              dsimp only
              omega
            have hused : t.use = t.inner + t.deletedInner + (t.outer + t.deletedOuter) := rfl
            have hslot : t.vtable.minOuterLocation - 1 = VertexIterator.outerSlot size (t.outer + t.deletedOuter) := by
              unfold VertexIterator.outerSlot
              omega
            rw [← Except.ok.inj hadd, hslot] at ht
            subst ht
            refine ⟨outer', hwords, hcount, hmaps, hin, ?_⟩
            refine hout.push (Nat.add_right_comm _ _ _) fun hmark => absurd hmark (Nat.not_le.mpr ?_)
            dsimp only
            rw [Function.update_self]
            exact hlids.small _
      · exact hsame hstep
    · exact hsame hstep
  | deleteVertex cmd =>
    unfold TableView.apply at hstep
    dsimp only at hstep
    split at hstep
    · rename_i hlabel
      split at hstep
      · rename_i hmine
        have ht := (Except.ok.inj hstep).symm
        subst ht
        have hgid : cmd.vid ∈ arriving parser pid vlabel (gidsOf log) :=
          mem_arriving.mpr ⟨hdeletes log cmd after rfl hmine, hmine, hlabel⟩
        rw [gidsOf_append] at hdense
        exact ⟨outer', hwords, hcount, hmaps, h.deletedInner hlids hdense.of_append hgid, hout⟩
      · cases hknown : t.keyLid cmd.vid with
        | none =>
          have hstay : t.deleteOuter parser vlabel cmd.vid = t := by
            unfold TableView.deleteOuter
            rw [hknown]
          rw [hstay] at hstep
          exact hsame hstep
        | some ov =>
          have ht := (Except.ok.inj hstep).symm
          subst ht
          have hmarks := h.deletedOuter hlids hknown hfits
          obtain ⟨q, -, -, hdeleted⟩ := h.words.foundOuter hlids hknown
          rw [hdeleted] at hwords hcount hmaps hin hmarks ⊢
          refine ⟨outer', hwords, hcount, hmaps, hin, ?_⟩
          exact hmarks.frame (fun _ _ => rfl) fun i hi => hi.grow houter
    · exact hsame hstep
  | updateVertex cmd => exact hsame hstep
  | deleteEdge cmd => exact hsame hstep
  | bulkloadEnd epoch => exact hsame hstep
  | unsupported op => exact hsame hstep

theorem TableMarks.run {records : List Record} (hlids : LidsOk parser vlabel size)
    (hdense : DenseOffsets parser (gidsOf (log ++ records))) (hdeletes : DeletesInserted parser pid (log ++ records))
    (h : TableMarks parser pid vlabel size log t outer)
    (hrun : records.foldlM (TableView.apply parser pid vlabel) t = .ok t') (hfits : t'.use ≤ size) :
    ∃ outer', TableMarks parser pid vlabel size (log ++ records) t' outer' := by
  induction records generalizing t log outer with
  | nil =>
    rw [← Except.ok.inj hrun, List.append_nil]
    exact ⟨outer, h⟩
  | cons r records ih =>
    rw [List.foldlM_cons] at hrun
    obtain ⟨t1, hfirst, hrest⟩ := bind_eq_ok hrun
    obtain ⟨outer1, h1⟩ := h.step hlids hdense hdeletes hfirst (Nat.le_trans (use_le_run hrest) hfits)
    have hsplit : log ++ r :: records = log ++ [r] ++ records := by simp
    rw [hsplit] at hdense hdeletes ⊢
    exact ih hdense hdeletes h1 hrest

end steps

end Gart.Store
