import Gart.Store.LabelViews

/-!
# What records do to the vertex tables

The vertex table of a label, with the maps of its outer vertices and the counters that bound it, changes with the
vertices that are inserted, met and deleted. Writing edges leaves it alone.
-/

namespace Gart.Store
open Gart.ByteMemory Gart.Outcome Gart.Fragment Gart.Seggraph

structure TableView where
  vtable : VTable
  keyLid : Nat → Option Nat
  ovg2l : Nat → Option Nat
  ovl2g : Nat → Nat
  deletedInner : Nat
  deletedOuter : Nat
  inner : Nat
  outer : Nat

def LabelStore.tableView (l : LabelStore) : TableView :=
  { vtable := l.vtable, keyLid := l.keyLid, ovg2l := l.ovg2l, ovl2g := l.ovl2g
    deletedInner := l.deletedInner, deletedOuter := l.deletedOuter
    inner := l.graph.vertexId, outer := l.ovGraph.vertexId }

namespace TableView

/-- An inner vertex is inserted. -/
def insert (parser : IdParser) (vlabel gid : Nat) (t : TableView) : Except StoreFault TableView := do
  let vtable ← t.vtable.addInner (parser.generateId 0 vlabel (parser.getOffset gid))
  return { t with vtable := vtable, inner := t.inner + 1 }

def meet (parser : IdParser) (vlabel gid : Nat) (t : TableView) : Except StoreFault TableView :=
  match t.keyLid gid with
  | some _ => .ok t
  | none => do
    let lid := outerLidOf parser vlabel t.outer
    let vtable ← t.vtable.addOuter lid
    return { t with
      vtable := vtable
      keyLid := Function.update t.keyLid gid (some t.outer)
      ovg2l := emplace t.ovg2l gid lid
      ovl2g := Function.update t.ovl2g t.outer gid
      outer := t.outer + 1 }

def deleteInner (parser : IdParser) (gid : Nat) (t : TableView) : TableView :=
  { t with vtable := t.vtable.deleteInner parser (parser.getOffset gid), deletedInner := t.deletedInner + 1 }

def deleteOuter (parser : IdParser) (vlabel gid : Nat) (t : TableView) : TableView :=
  match t.keyLid gid with
  | none => t
  | some ov =>
    { t with vtable := t.vtable.deleteOuter (outerLidOf parser vlabel ov), deletedOuter := t.deletedOuter + 1 }

def outerEnd (parser : IdParser) (pid : Nat) (r : GraphStore.EdgeRecord) : Option Nat :=
  if parser.getFid r.srcVid = pid then
    if parser.getFid r.dstVid = pid then none else some r.dstVid
  else if parser.getFid r.dstVid = pid then some r.srcVid
  else none

def apply (parser : IdParser) (pid vlabel : Nat) (t : TableView) : Record → Except StoreFault TableView
  | .addVertex cmd =>
    if parser.getFid cmd.vid = pid ∧ parser.getLabelId cmd.vid = vlabel then t.insert parser vlabel cmd.vid else .ok t
  | .deleteVertex cmd =>
    if parser.getLabelId cmd.vid = vlabel then
      if parser.getFid cmd.vid = pid then .ok (t.deleteInner parser cmd.vid)
      else .ok (t.deleteOuter parser vlabel cmd.vid)
    else .ok t
  | .addEdge cmd =>
    match outerEnd parser pid cmd.toRecord with
    | some gid => if parser.getLabelId gid = vlabel then t.meet parser vlabel gid else .ok t
    | none => .ok t
  | _ => .ok t

end TableView

/-- The tables of two stores are related label by label. -/
structure Tables (R : Nat → TableView → TableView → Prop) (s s' : GraphStore) : Prop where
  same : SameStore s s'
  length : s'.labels.length = s.labels.length
  label : ∀ i l', s'.labels[i]? = some l' → ∃ l, s.labels[i]? = some l ∧ R i l.tableView l'.tableView

theorem Views.tables {R : Nat → TableView → TableView → Prop} {s s' : GraphStore}
    (h : Views LabelStore.tableView R s s') : Tables R s s' := ⟨h.same, h.length, h.label⟩

theorem ignoresEdges_tableView : IgnoresEdges LabelStore.tableView := by
  constructor
  · intro l g hg
    unfold LabelStore.tableView
    rw [hg]
  · intro l g hg
    unfold LabelStore.tableView
    rw [hg]

/-! ### Records -/

section records
variable {s s' : GraphStore} {recycle : Bool} {epoch : Nat}

theorem insertInnerVertex_views {gid : Nat} {externalId : Bytes} {vprop : List Bytes}
    (h : s.insertInnerVertex recycle epoch gid externalId vprop = .ok s') :
    Views LabelStore.tableView (fun i t t' => (if s.idParser.getFid gid = s.localPid ∧ s.idParser.getLabelId gid = i
      then t.insert s.idParser i gid else .ok t) = .ok t') s s' := by
  obtain ⟨l, l', hone, hcases⟩ := insertInnerVertex_cases h
  refine views_one hone ?_ fun i t hi => if_neg fun hmine => hi hmine.2.symm
  rcases hcases with ⟨hfid, ⟨map, rfl⟩, -⟩ | ⟨hfid, hl'⟩
  · exact if_neg fun hmine => hfid hmine.1
  · rw [if_pos ⟨hfid, rfl⟩]
    have hinner : l'.graph.vertexId = l.graph.vertexId + 1 := by
      rw [hl'.graph, newVertex_vertexId, (createGraphWriter_sameGraph l.graph recycle epoch).vertexId]
    unfold TableView.insert LabelStore.tableView
    dsimp only
    rw [hl'.vtable, hl'.keyLid, hl'.ovg2l, hl'.ovl2g, hl'.deletedInner, hl'.deletedOuter, hl'.ovGraph, hinner]
    rfl

theorem outerEndpoint_views {vid ov : Nat} {externalId : Bytes}
    (h : s.outerEndpoint recycle epoch vid externalId = .ok (ov, s')) :
    Views LabelStore.tableView
        (fun i t t' => (if s.idParser.getLabelId vid = i then t.meet s.idParser i vid else .ok t) = .ok t') s s' := by
  unfold GraphStore.outerEndpoint at h
  dsimp only at h
  obtain ⟨l, hl, h⟩ := bind_eq_ok h
  have hl := getLabel_eq hl
  have hsame := (createGraphWriter_sameGraph l.ovGraph recycle epoch).vertexId
  split at h
  · rename_i known hknown
    rw [← (Prod.mk.inj (Except.ok.inj h)).2]
    refine views_one (oneLabel_setLabel hl _ _) ?_ fun i t hi => if_neg hi.symm
    rw [if_pos rfl]
    unfold TableView.meet LabelStore.tableView
    dsimp only at hknown ⊢
    rw [hknown, hsame]
  · rename_i hnew
    obtain ⟨⟨l', strings⟩, hadd, h⟩ := bind_eq_ok h
    rw [← (Prod.mk.inj (Except.ok.inj h)).2]
    refine views_one (oneLabel_setLabel hl _ _) ?_ fun i t hi => if_neg hi.symm
    unfold GraphStore.addOuterVertex at hadd
    dsimp only at hadd
    rw [hsame] at hadd
    obtain ⟨vtable, hvtable, hadd⟩ := bind_eq_ok hadd
    obtain ⟨⟨value, strings'⟩, -, hadd⟩ := bind_eq_ok hadd
    obtain ⟨l2, hmap, hadd⟩ := bind_eq_ok hadd
    obtain ⟨map, rfl⟩ := mapVertex_eq hmap
    obtain ⟨rfl, -⟩ := Prod.mk.inj (Except.ok.inj hadd)
    have hlid : s.outerLid (s.idParser.getLabelId vid) l.ovGraph.vertexId =
        outerLidOf s.idParser (s.idParser.getLabelId vid) l.ovGraph.vertexId := rfl
    rw [if_pos rfl]
    rw [hlid] at hvtable
    unfold TableView.meet LabelStore.tableView
    dsimp only at hnew ⊢
    rw [hnew, hvtable, newVertex_vertexId, hsame, hlid]
    rfl

theorem outerOf_fst (parser : IdParser) (pid : Nat) (r : GraphStore.EdgeRecord) :
    (outerOf parser pid r).map Prod.fst = TableView.outerEnd parser pid r := by
  unfold outerOf TableView.outerEnd
  split
  · split <;> rfl
  · split <;> rfl

theorem processAddEdge_tableViews {draws : GraphStore.Draws} {r : GraphStore.EdgeRecord}
    (h : s.processAddEdge draws r = .ok s') :
    Views LabelStore.tableView (fun i t t' => (match TableView.outerEnd s.idParser s.localPid r with
      | some gid => if s.idParser.getLabelId gid = i then t.meet s.idParser i gid else .ok t
      | none => .ok t) = .ok t') s s' := by
  have hmeets : ∀ s1 s2 recycle epoch (outer : Nat × Bytes) ov, SameStore s s1 →
      s1.outerEndpoint recycle epoch outer.1 outer.2 = .ok (ov, s2) → Views LabelStore.tableView
        (fun i t t' => (if s.idParser.getLabelId outer.1 = i then t.meet s.idParser i outer.1 else .ok t) = .ok t')
        s1 s2 := by
    intro s1 s2 recycle epoch outer ov hsame hendpoint
    have hmeets := outerEndpoint_views hendpoint
    rw [hsame.idParser] at hmeets
    exact hmeets
  have hviews := @processAddEdge_views _ _ s s' ignoresEdges_tableView (fun outer i t t' =>
    (if s.idParser.getLabelId outer.1 = i then t.meet s.idParser i outer.1 else .ok t) = .ok t') hmeets draws r h
  refine hviews.mono fun i t t' ht => ?_
  rw [← outerOf_fst]
  cases houter : outerOf s.idParser s.localPid r with
  | none =>
    rw [houter] at ht
    exact congrArg Except.ok ht.symm
  | some outer =>
    rw [houter] at ht
    exact ht

theorem updateInnerVertex_tableViews {gid : Nat} {vprop : List Bytes}
    (h : s.updateInnerVertex epoch gid vprop = .ok s') : SameViews LabelStore.tableView s s' := by
  rcases updateInnerVertex_cases h with ⟨-, rfl⟩ | ⟨-, l, l', hone, hupdated⟩
  · exact .refl _
  · obtain ⟨property, rfl⟩ := hupdated.rest
    exact sameViews_one hone rfl

theorem deleteVertex_views {draws : GraphStore.VertexDraws} {v : VertexRef} {change : TableView → TableView}
    (hchange : ∀ l s1, s.labels[v.vlabel]? = some l → s.deleteFromTable draws.own epoch v = .ok s1 →
      ∃ l', OneLabel v.vlabel l l' s s1 ∧ l'.tableView = change l.tableView)
    (h : s.deleteVertex draws epoch v = .ok s') :
    Views LabelStore.tableView (fun i t t' => t' = if v.vlabel = i then change t else t) s s' := by
  unfold GraphStore.deleteVertex at h
  obtain ⟨s1, htable, h⟩ := bind_eq_ok h
  have hbound := htable
  unfold GraphStore.deleteFromTable at hbound
  obtain ⟨l, hl, -⟩ := bind_eq_ok hbound
  obtain ⟨l', hone, hview⟩ := hchange l s1 (getLabel_eq hl) htable
  refine (views_one hone ?_ fun i t hi => ?_).andThen (deleteRelatedEdges_sameViews ignoresEdges_tableView h)
  · rw [if_pos rfl]
    exact hview
  · rw [if_neg hi.symm]

theorem processDelVertex_views {draws : GraphStore.VertexDraws} {gid : Nat}
    (h : s.processDelVertex draws epoch gid = .ok s') :
    Views LabelStore.tableView (fun i t t' => t' = if s.idParser.getLabelId gid = i then
      if s.idParser.getFid gid = s.localPid then t.deleteInner s.idParser gid else t.deleteOuter s.idParser i gid
      else t) s s' := by
  unfold GraphStore.processDelVertex at h
  dsimp only at h
  split at h
  · rename_i hmine
    refine (@deleteVertex_views s s' epoch draws _ (fun t => t.deleteInner s.idParser gid)
        (fun l s1 hl htable => ?_) h).mono
      fun i t t' ht => ?_
    · unfold GraphStore.deleteFromTable at htable
      obtain ⟨l0, hl0, htable⟩ := bind_eq_ok htable
      have hsame : l0 = l := Option.some.inj ((getLabel_eq hl0).symm.trans hl)
      subst hsame
      rw [← Except.ok.inj htable]
      refine ⟨_, oneLabel_setLabel (getLabel_eq hl0) _ _, ?_⟩
      unfold LabelStore.tableView TableView.deleteInner
      dsimp only
      rw [(createGraphWriter_sameGraph l0.graph draws.own epoch).vertexId]
    · rw [ht, if_pos hmine]
  · rename_i hforeign
    split at h
    · rename_i hunknown
      rw [← Except.ok.inj h]
      refine ⟨.refl s, rfl, fun i l hl => ⟨l, hl, ?_⟩⟩
      split
      · rename_i hi
        unfold GraphStore.getLid at hunknown
        rw [hi, hl] at hunknown
        have hnone : l.tableView.keyLid gid = none := hunknown
        unfold TableView.deleteOuter
        rw [hnone]
      · rfl
    · rename_i ov hknown
      have hkey : ∀ l, s.labels[s.idParser.getLabelId gid]? = some l → l.keyLid gid = some ov := by
        intro l hl
        unfold GraphStore.getLid at hknown
        rw [hl] at hknown
        exact hknown
      refine (@deleteVertex_views s s' epoch draws _ (fun t => t.deleteOuter s.idParser (s.idParser.getLabelId gid) gid)
        (fun l s1 hl htable => ?_) h).mono fun i t t' ht => ?_
      · unfold GraphStore.deleteFromTable at htable
        obtain ⟨l0, hl0, htable⟩ := bind_eq_ok htable
        have hsame : l0 = l := Option.some.inj ((getLabel_eq hl0).symm.trans hl)
        subst hsame
        rw [← Except.ok.inj htable]
        refine ⟨_, oneLabel_setLabel (getLabel_eq hl0) _ _, ?_⟩
        unfold LabelStore.tableView TableView.deleteOuter
        dsimp only
        rw [hkey l0 (getLabel_eq hl0), (createGraphWriter_sameGraph l0.ovGraph draws.own epoch).vertexId]
        rfl
      · rw [ht]
        split
        · rename_i hi
          exact congrArg (fun i => TableView.deleteOuter s.idParser i gid t) hi
        · rfl

theorem applyRecord_tableViews {r : GraphStore.RecordDraws × Record} (h : s.applyRecord r = .ok s') :
    Views LabelStore.tableView (fun i t t' => t.apply s.idParser s.localPid i r.2 = .ok t') s s' := by
  obtain ⟨draws, record⟩ := r
  have hsame : SameViews LabelStore.tableView s s' →
      Views LabelStore.tableView (fun i t t' => (.ok t : Except StoreFault TableView) = .ok t') s s' :=
    fun hs => hs.mono fun i t t' ht => congrArg Except.ok ht.symm
  cases record with
  | addVertex cmd => exact insertInnerVertex_views h
  | updateVertex cmd => exact hsame (updateInnerVertex_tableViews h)
  | deleteVertex cmd =>
    refine (processDelVertex_views h).mono fun i t t' ht => ?_
    rw [ht]
    unfold TableView.apply
    dsimp only
    split
    · split <;> rfl
    · rfl
  | addEdge cmd => exact processAddEdge_tableViews h
  | deleteEdge cmd => exact hsame (processDelEdge_sameViews ignoresEdges_tableView h)
  | bulkloadEnd epoch =>
    refine hsame ?_
    rw [← Except.ok.inj h]
    exact .refl s
  | unsupported op => cases h

theorem applyRecords_tables {lines : List (GraphStore.RecordDraws × Record)}
    (h : lines.foldlM GraphStore.applyRecord s = .ok s') :
    Tables (fun i t t' => (lines.map Prod.snd).foldlM (TableView.apply s.idParser s.localPid i) t = .ok t') s s' :=
  (@applyRecords_views _ LabelStore.tableView s s' (fun s i => TableView.apply s.idParser s.localPid i)
    (fun s s' hsame => by rw [hsame.idParser, hsame.localPid]) (fun _ _ _ => applyRecord_tableViews) lines h).tables

end records

end Gart.Store
