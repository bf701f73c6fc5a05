import Gart.Store.TableSnapshot

/-!
# The maps from external ids (graph_store.cc set_vertex_map)

What a run leaves in the vertex map of a label with numeric external ids: for every external id the vertex that was
first to come under it. Nothing removes an entry.
-/

namespace Gart.Store
open Gart.ByteMemory Gart.Outcome Gart.Fragment Gart.Seggraph

structure OidView where
  vertexMap : Int → Option Nat
  /-- the outer vertices that are known -/
  known : Nat → Bool
  isString : Bool

def LabelStore.oidView (l : LabelStore) : OidView :=
  { vertexMap := l.vertexMap, known := fun gid => (l.keyLid gid).isSome, isString := l.externalIdIsString }

namespace OidView

def map (text : Bytes) (gid : Nat) (x : OidView) : Except StoreFault OidView :=
  if x.isString then .ok x
  else do
    let oid ← readLong text
    return { x with vertexMap := emplace x.vertexMap oid gid }

def meet (globally : Bool) (outer : Nat × Bytes) (x : OidView) : Except StoreFault OidView :=
  if x.known outer.1 then .ok x
  else
    let x := { x with known := Function.update x.known outer.1 true }
    if globally then .ok x else x.map outer.2 outer.1

def apply (parser : IdParser) (pid : Nat) (globally : Bool) (vlabel : Nat) (x : OidView) :
    Record → Except StoreFault OidView
  | .addVertex cmd =>
    if parser.getLabelId cmd.vid = vlabel ∧ (globally = true ∨ parser.getFid cmd.vid = pid) then
      x.map (bytesOf cmd.externalId) cmd.vid
    else .ok x
  | .addEdge cmd =>
    match outerOf parser pid cmd.toRecord with
    | some outer => if parser.getLabelId outer.1 = vlabel then x.meet globally outer else .ok x
    | none => .ok x
  | _ => .ok x

end OidView

theorem ignoresEdges_oidView : IgnoresEdges LabelStore.oidView := ⟨fun _ _ _ => rfl, fun _ _ _ => rfl⟩

/-! ### Records -/

section records
variable {s s' : GraphStore} {l l' : LabelStore} {recycle : Bool} {epoch gid : Nat} {text : Bytes}

theorem mapVertex_oidView {globally : Bool} (h : s.mapVertex globally l text gid = .ok l') :
    (if s.globalVertexMap = globally then l.oidView.map text gid else .ok l.oidView) = .ok l'.oidView := by
  unfold GraphStore.mapVertex at h
  split at h
  · rename_i hmode
    rw [if_pos hmode]
    unfold LabelStore.mapExternalId at h
    unfold OidView.map
    by_cases hstring : l.externalIdIsString = true
    · rw [if_pos hstring] at h
      rw [if_pos (show l.oidView.isString = true from hstring), Except.ok.inj h]
    · rw [if_neg hstring] at h
      obtain ⟨oid, hoid, h⟩ := bind_eq_ok h
      rw [if_neg (show ¬ l.oidView.isString = true from hstring), hoid, ← Except.ok.inj h]
      rfl
  · rename_i hmode
    rw [if_neg hmode, Except.ok.inj h]

theorem insertInnerVertex_oidViews {vprop : List Bytes}
    (h : s.insertInnerVertex recycle epoch gid text vprop = .ok s') :
    Views LabelStore.oidView (fun i x x' =>
      (if s.idParser.getLabelId gid = i ∧ (s.globalVertexMap = true ∨ s.idParser.getFid gid = s.localPid) then
        x.map text gid else .ok x) = .ok x') s s' := by
  unfold GraphStore.insertInnerVertex at h
  dsimp only at h
  obtain ⟨l, hl, h⟩ := bind_eq_ok h
  obtain ⟨l1, hl1, h⟩ := bind_eq_ok h
  have hfirst := mapVertex_oidView hl1
  split at h
  · rename_i hfid
    rw [← Except.ok.inj h]
    refine views_one (oneLabel_setLabel (getLabel_eq hl) _ _) ?_ fun i x hi => if_neg fun hmine => hi hmine.1.symm
    by_cases hglobal : s.globalVertexMap = true
    · rw [if_pos hglobal] at hfirst
      rw [if_pos ⟨rfl, Or.inl hglobal⟩]
      exact hfirst
    · rw [if_neg hglobal] at hfirst
      rw [if_neg fun hmine => hmine.2.elim hglobal hfid]
      exact hfirst
  · rename_i hfid
    obtain ⟨l2, hl2, h⟩ := bind_eq_ok h
    obtain ⟨vtable, -, h⟩ := bind_eq_ok h
    obtain ⟨⟨value, strings⟩, -, h⟩ := bind_eq_ok h
    obtain ⟨⟨args, strings'⟩, -, h⟩ := bind_eq_ok h
    obtain ⟨⟨property, regions⟩, -, h⟩ := bind_eq_ok h
    have hsecond := mapVertex_oidView hl2
    rw [← Except.ok.inj h]
    refine views_one (oneLabel_setLabel (getLabel_eq hl) _ _) ?_ fun i x hi => if_neg fun hmine => hi hmine.1.symm
    rw [if_pos ⟨rfl, Or.inr (Decidable.not_not.mp hfid)⟩]
    by_cases hglobal : s.globalVertexMap = true
    · rw [if_pos hglobal] at hfirst
      rw [if_neg (by rw [hglobal]; decide)] at hsecond
      rw [hfirst, Except.ok.inj hsecond]
      rfl
    · rw [if_neg hglobal] at hfirst
      rw [if_pos (Bool.not_eq_true _ ▸ hglobal), ← Except.ok.inj hfirst] at hsecond
      exact hsecond

theorem outerEndpoint_oidViews {ov : Nat} {outer : Nat × Bytes}
    (h : s.outerEndpoint recycle epoch outer.1 outer.2 = .ok (ov, s')) :
    Views LabelStore.oidView (fun i x x' =>
      (if s.idParser.getLabelId outer.1 = i then x.meet s.globalVertexMap outer else .ok x) = .ok x') s s' := by
  unfold GraphStore.outerEndpoint at h
  dsimp only at h
  obtain ⟨l, hl, h⟩ := bind_eq_ok h
  have hl := getLabel_eq hl
  split at h
  · rename_i known hknown
    rw [← (Prod.mk.inj (Except.ok.inj h)).2]
    refine views_one (oneLabel_setLabel hl _ _) ?_ fun i x hi => if_neg hi.symm
    have hsome : l.oidView.known outer.1 = true := by
      show (l.keyLid outer.1).isSome = true
      rw [show l.keyLid outer.1 = some known from hknown]
      rfl
    rw [if_pos rfl]
    unfold OidView.meet
    rw [if_pos hsome]
    rfl
  · rename_i hnew
    obtain ⟨⟨l', strings⟩, hadd, h⟩ := bind_eq_ok h
    rw [← (Prod.mk.inj (Except.ok.inj h)).2]
    refine views_one (oneLabel_setLabel hl _ _) ?_ fun i x hi => if_neg hi.symm
    unfold GraphStore.addOuterVertex at hadd
    dsimp only at hadd
    obtain ⟨vtable, -, hadd⟩ := bind_eq_ok hadd
    obtain ⟨⟨value, strings'⟩, -, hadd⟩ := bind_eq_ok hadd
    obtain ⟨l2, hmap, hadd⟩ := bind_eq_ok hadd
    obtain ⟨rfl, -⟩ := Prod.mk.inj (Except.ok.inj hadd)
    have hnone : ¬ l.oidView.known outer.1 = true := by
      show ¬ (l.keyLid outer.1).isSome = true
      rw [show l.keyLid outer.1 = none from hnew]
      exact Bool.false_ne_true
    have hstep := mapVertex_oidView hmap
    have hview : ∀ ovGraph vtable ovg2l ovl2g store, LabelStore.oidView { l with
        ovGraph := ovGraph
        vtable := vtable
        keyLid := Function.update l.keyLid outer.1 (some (l.ovGraph.createGraphWriter recycle epoch).vertexId)
        ovg2l := ovg2l
        ovl2g := ovl2g
        outerExternalIdStore := store } =
        { l.oidView with known := Function.update l.oidView.known outer.1 true } := by
      intro ovGraph vtable ovg2l ovl2g store
      unfold LabelStore.oidView
      dsimp only
      congr 1
      funext gid
      by_cases hgid : gid = outer.1
      · rw [hgid, Function.update_self, Function.update_self]
        rfl
      · rw [Function.update_of_ne hgid, Function.update_of_ne hgid]
    rw [hview] at hstep
    rw [if_pos rfl]
    unfold OidView.meet
    rw [if_neg hnone]
    dsimp only
    by_cases hglobal : s.globalVertexMap = true
    · rw [if_neg (by rw [hglobal]; decide)] at hstep
      rw [if_pos hglobal]
      exact hstep
    · rw [if_pos (Bool.not_eq_true _ ▸ hglobal)] at hstep
      rw [if_neg hglobal]
      exact hstep

theorem deleteFromTable_oidViews {v : VertexRef} (h : s.deleteFromTable recycle epoch v = .ok s') :
    SameViews LabelStore.oidView s s' := by
  unfold GraphStore.deleteFromTable at h
  obtain ⟨l, hl, h⟩ := bind_eq_ok h
  split at h
  · rw [← Except.ok.inj h]
    exact sameViews_one (oneLabel_setLabel (getLabel_eq hl) _ _) rfl
  · rw [← Except.ok.inj h]
    exact sameViews_one (oneLabel_setLabel (getLabel_eq hl) _ _) rfl

theorem processDelVertex_oidViews {draws : GraphStore.VertexDraws} (h : s.processDelVertex draws epoch gid = .ok s') :
    SameViews LabelStore.oidView s s' := by
  have hdelete : ∀ v, s.deleteVertex draws epoch v = .ok s' → SameViews LabelStore.oidView s s' := by
    intro v h
    unfold GraphStore.deleteVertex at h
    obtain ⟨s1, htable, h⟩ := bind_eq_ok h
    exact (deleteFromTable_oidViews htable).andThen (deleteRelatedEdges_sameViews ignoresEdges_oidView h)
  unfold GraphStore.processDelVertex at h
  dsimp only at h
  split at h
  · exact hdelete _ h
  · split at h
    · rw [← Except.ok.inj h]
      exact .refl s
    · exact hdelete _ h

theorem applyRecord_oidViews {r : GraphStore.RecordDraws × Record} (h : s.applyRecord r = .ok s') :
    Views LabelStore.oidView
      (fun i x x' => x.apply s.idParser s.localPid s.globalVertexMap i r.2 = .ok x') s s' := by
  obtain ⟨draws, record⟩ := r
  have hsame : SameViews LabelStore.oidView s s' →
      Views LabelStore.oidView (fun i x x' => (.ok x : Except StoreFault OidView) = .ok x') s s' :=
    fun hs => hs.mono fun i x x' hx => congrArg Except.ok hx.symm
  cases record with
  | addVertex cmd => exact insertInnerVertex_oidViews h
  | updateVertex cmd =>
    refine hsame ?_
    rcases updateInnerVertex_cases h with ⟨-, rfl⟩ | ⟨-, l, l', hone, hupdated⟩
    · exact .refl _
    · obtain ⟨property, rfl⟩ := hupdated.rest
      exact sameViews_one hone rfl
  | deleteVertex cmd => exact hsame (processDelVertex_oidViews h)
  | addEdge cmd =>
    have hmeets : ∀ s1 s2 recycle epoch (outer : Nat × Bytes) ov, SameStore s s1 →
        s1.outerEndpoint recycle epoch outer.1 outer.2 = .ok (ov, s2) → Views LabelStore.oidView
          (fun i x x' => (if s.idParser.getLabelId outer.1 = i then x.meet s.globalVertexMap outer else .ok x) = .ok x')
          s1 s2 := by
      intro s1 s2 recycle epoch outer ov hsame hendpoint
      have hmeets := outerEndpoint_oidViews hendpoint
      rw [hsame.idParser, hsame.globalVertexMap] at hmeets
      exact hmeets
    have hviews := @processAddEdge_views _ _ s s' ignoresEdges_oidView (fun outer i x x' =>
      (if s.idParser.getLabelId outer.1 = i then x.meet s.globalVertexMap outer else .ok x) = .ok x') hmeets draws.edge
      cmd.toRecord h
    refine hviews.mono fun i x x' hx => ?_
    unfold OidView.apply
    dsimp only
    cases houter : outerOf s.idParser s.localPid cmd.toRecord with
    | none =>
      rw [houter] at hx
      exact congrArg Except.ok hx.symm
    | some outer =>
      rw [houter] at hx
      exact hx
  | deleteEdge cmd => exact hsame (processDelEdge_sameViews ignoresEdges_oidView h)
  | bulkloadEnd epoch =>
    refine hsame ?_
    rw [← Except.ok.inj h]
    exact .refl s
  | unsupported op => cases h

theorem applyRecords_oidViews {lines : List (GraphStore.RecordDraws × Record)}
    (h : lines.foldlM GraphStore.applyRecord s = .ok s') :
    Views LabelStore.oidView (fun i x x' =>
      (lines.map Prod.snd).foldlM (OidView.apply s.idParser s.localPid s.globalVertexMap i) x = .ok x') s s' :=
  @applyRecords_views _ LabelStore.oidView s s' (fun s i => OidView.apply s.idParser s.localPid s.globalVertexMap i)
    (fun s s' hsame => by rw [hsame.idParser, hsame.localPid, hsame.globalVertexMap])
    (fun _ _ _ => applyRecord_oidViews) lines h

end records

end Gart.Store
