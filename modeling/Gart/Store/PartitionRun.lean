import Gart.Store.GidDensity
import Gart.Store.PartitionInv

/-!
# The log in a partition

Every partition applies the whole log and keeps the vertices of its own and the edges that
touch them. The logs of its inner vertices are compared with the edges of the log.
-/

namespace Gart.Store
open Gart.ByteMemory Gart.Outcome Gart.Fragment

/-! ### The records -/

/-- The elements of the command of `process_add_edge`; epochs and labels are not negative. -/
def EdgeCmd.toRecord (cmd : EdgeCmd) : GraphStore.EdgeRecord :=
  { epoch := cmd.writeEpoch.toNat
    elabel := cmd.elabel.toNat
    srcVid := cmd.srcVid
    dstVid := cmd.dstVid
    srcExternalId := bytesOf cmd.srcExternalId
    dstExternalId := bytesOf cmd.dstExternalId
    eprop := cmd.eprop.map bytesOf }

/-- `apply_log_to_store_` for the records that add something (`bench_runner.cc:566-743`), with the draws of their
writers. -/
def GraphStore.applyAdd (s : GraphStore) (r : GraphStore.Draws × Record) : Except StoreFault GraphStore :=
  match r.2 with
  | .addVertex cmd => s.processAddVertex r.1.src cmd
  | .addEdge cmd => s.processAddEdge r.1 cmd.toRecord
  | _ => .error .unsupported

def gidsOf (log : List Record) : List Nat :=
  log.filterMap fun r => match r with
    | .addVertex cmd => some cmd.vid
    | _ => none

def edgesOf (log : List Record) : List GraphStore.EdgeRecord :=
  log.filterMap fun r => match r with
    | .addEdge cmd => some cmd.toRecord
    | _ => none

def Record.epoch : Record → Nat
  | .addVertex cmd => cmd.writeEpoch.toNat
  | .addEdge cmd => cmd.writeEpoch.toNat
  | .updateVertex cmd => cmd.writeEpoch.toNat
  | .deleteVertex cmd => cmd.writeEpoch.toNat
  | .deleteEdge cmd => cmd.writeEpoch.toNat
  | .bulkloadEnd epoch => epoch.toNat
  | .unsupported _ => 0

theorem gidsOf_append (log more : List Record) : gidsOf (log ++ more) = gidsOf log ++ gidsOf more :=
  List.filterMap_append

theorem edgesOf_append (log more : List Record) : edgesOf (log ++ more) = edgesOf log ++ edgesOf more :=
  List.filterMap_append

/-! ### Lists and edges -/

def GraphStore.EdgeRecord.vid (r : GraphStore.EdgeRecord) : Seggraph.Dir → Nat
  | .eout => r.srcVid
  | .ein => r.dstVid

def GraphStore.EdgeRecord.other (r : GraphStore.EdgeRecord) : Seggraph.Dir → Nat
  | .eout => r.dstVid
  | .ein => r.srcVid

def OnVertex (k : Partition) (vlabel v e : Nat) (d : Seggraph.Dir) (r : GraphStore.EdgeRecord) : Prop :=
  k.parser.getFid (r.vid d) = k.pid ∧ k.parser.getLabelId (r.vid d) = vlabel ∧
    k.parser.getOffset (r.vid d) = v ∧ r.elabel = e

instance (k : Partition) (vlabel v e : Nat) (d : Seggraph.Dir) (r : GraphStore.EdgeRecord) :
    Decidable (OnVertex k vlabel v e d r) := inferInstanceAs (Decidable (_ ∧ _))

def HasLid (k : Partition) (view : Nat → LabelView) (gid lid : Nat) : Prop :=
  k.parser.getFid gid = k.pid ∧ lid = k.parser.generateId 0 (k.parser.getLabelId gid) (k.parser.getOffset gid) ∨
    k.parser.getFid gid ≠ k.pid ∧ ∃ ov, (view (k.parser.getLabelId gid)).outer[ov]? = some gid ∧
      lid = outerLidOf k.parser (k.parser.getLabelId gid) ov

def Stands (k : Partition) (view : Nat → LabelView) (d : Seggraph.Dir) (entry : Seggraph.LogEntry)
    (r : GraphStore.EdgeRecord) : Prop := HasLid k view (r.other d) entry.edge.dst

/-- The lists of the inner vertices in a direction are the edges that touch them, in the order of the log. -/
def Follows (k : Partition) (view : Nat → LabelView) (d : Seggraph.Dir) (edges : List GraphStore.EdgeRecord) : Prop :=
  ∀ vlabel v e, List.Forall₂ (Stands k view d) ((view vlabel).log v e d)
    (edges.filter fun r => OnVertex k vlabel v e d r)

def Knows (view view' : Nat → LabelView) : Prop := ∀ vlabel, (view vlabel).outer <+: (view' vlabel).outer

structure Grown (view view' : Nat → LabelView) : Prop where
  inner : ∀ vlabel, (view' vlabel).inner = (view vlabel).inner
  outer : Knows view view'

section views
variable {k : Partition} {view view' view'' : Nat → LabelView} {gid lid vlabel v e : Nat} {outer : List Nat}
  {edges : List GraphStore.EdgeRecord} {r : GraphStore.EdgeRecord} {d d' : Seggraph.Dir}
  {entry : Seggraph.LogEntry}

theorem Grown.refl (view : Nat → LabelView) : Grown view view := ⟨fun _ => rfl, fun _ => List.prefix_rfl⟩

theorem Grown.trans (h : Grown view view') (h' : Grown view' view'') : Grown view view'' :=
  ⟨fun l => (h'.inner l).trans (h.inner l), fun l => (h.outer l).trans (h'.outer l)⟩

theorem getElem?_of_isPrefix {α : Type} {xs ys : List α} {i : Nat} {x : α} (h : xs <+: ys) (hx : xs[i]? = some x) :
    ys[i]? = some x := by
  obtain ⟨more, rfl⟩ := h
  rw [List.getElem?_append_left (List.getElem?_eq_some_iff.mp hx).1]
  exact hx

theorem HasLid.grown (h : HasLid k view gid lid) (hknows : Knows view view') : HasLid k view' gid lid := by
  rcases h with h | ⟨hfid, ov, hov, hlid⟩
  · exact Or.inl h
  · exact Or.inr ⟨hfid, ov, getElem?_of_isPrefix (hknows _) hov, hlid⟩

theorem grown_update {view' : LabelView} (hinner : view'.inner = (view vlabel).inner)
    (houter : (view vlabel).outer <+: view'.outer) : Grown view (Function.update view vlabel view') := by
  constructor
  · intro i
    by_cases hi : i = vlabel
    · rw [hi, Function.update_self]
      exact hinner
    · rw [Function.update_of_ne hi]
  · intro i
    by_cases hi : i = vlabel
    · rw [hi, Function.update_self]
      exact houter
    · rw [Function.update_of_ne hi]

theorem grown_withOuter (h : (view vlabel).outer <+: outer) : Grown view (withOuter view vlabel outer) :=
  grown_update rfl h

theorem grown_addInnerEntry : Grown view (addInnerEntry view vlabel v e d entry) := grown_update rfl List.prefix_rfl

theorem grown_addOuterEntry : Grown view (addOuterEntry view vlabel v e d entry) := grown_update rfl List.prefix_rfl

theorem Follows.grown (h : Follows k view d edges) (hknows : Knows view view')
    (hlog : ∀ vlabel v e, (view' vlabel).log v e d = (view vlabel).log v e d) : Follows k view' d edges := by
  intro vlabel v e
  rw [hlog]
  exact (h vlabel v e).imp fun entry r hstands => HasLid.grown hstands hknows

theorem withOuter_log (i : Nat) : (withOuter view vlabel outer i).log = (view i).log := by
  unfold withOuter
  by_cases hi : i = vlabel
  · rw [hi, Function.update_self]
  · rw [Function.update_of_ne hi]

theorem addOuterEntry_log (i : Nat) : (addOuterEntry view vlabel v e d entry i).log = (view i).log := by
  unfold addOuterEntry
  by_cases hi : i = vlabel
  · rw [hi, Function.update_self]
  · rw [Function.update_of_ne hi]

theorem addInnerEntry_log (i v' e' : Nat) (d' : Seggraph.Dir) :
    (addInnerEntry view vlabel v e d entry i).log v' e' d' =
      if i = vlabel ∧ v' = v ∧ e' = e ∧ d' = d then (view i).log v' e' d' ++ [entry] else (view i).log v' e' d' := by
  unfold addInnerEntry
  by_cases hi : i = vlabel
  · rw [hi, Function.update_self]
    dsimp only
    rw [addEntry_eq]
    exact if_congr (by simp) rfl rfl
  · rw [Function.update_of_ne hi, if_neg fun hon => hi hon.1]

theorem Follows.skip (h : Follows k view d edges) (hforeign : k.parser.getFid (r.vid d) ≠ k.pid) :
    Follows k view d (edges ++ [r]) := by
  intro vlabel v e
  have hnone : ([r].filter fun r => OnVertex k vlabel v e d r) = [] :=
    List.filter_cons_of_neg (by simpa using fun hon : OnVertex k vlabel v e d r => hforeign hon.1)
  rw [List.filter_append, hnone, List.append_nil]
  exact h vlabel v e

theorem Follows.add (h : Follows k view d edges) (hmine : k.parser.getFid (r.vid d) = k.pid)
    (hstands : Stands k view d entry r) :
    Follows k (addInnerEntry view (k.parser.getLabelId (r.vid d)) (k.parser.getOffset (r.vid d)) r.elabel d entry) d
      (edges ++ [r]) := by
  intro vlabel v e
  have hgrown := @grown_addInnerEntry view (k.parser.getLabelId (r.vid d)) (k.parser.getOffset (r.vid d)) r.elabel d
    entry
  have hold := (h vlabel v e).imp fun entry r (hstands : Stands k view d entry r) =>
    HasLid.grown hstands hgrown.outer
  rw [addInnerEntry_log, List.filter_append]
  by_cases hon : OnVertex k vlabel v e d r
  · have hone : ([r].filter fun r => OnVertex k vlabel v e d r) = [r] := List.filter_cons_of_pos (decide_eq_true hon)
    obtain ⟨-, hlabel, hv, he⟩ := hon
    rw [hone, if_pos ⟨hlabel.symm, hv.symm, he.symm, rfl⟩]
    exact List.rel_append hold (.cons (HasLid.grown hstands hgrown.outer) .nil)
  · have hnone : ([r].filter fun r => OnVertex k vlabel v e d r) = [] :=
      List.filter_cons_of_neg (by simpa using hon)
    rw [hnone, List.append_nil, if_neg]
    · exact hold
    · rintro ⟨rfl, rfl, rfl, -⟩
      exact hon ⟨hmine, rfl, rfl, rfl⟩

def Partition.Narrow (k : Partition) : Prop := ∀ fid label offset, k.parser.generateId fid label offset < 2 ^ 63

theorem HasLid.lt (h : HasLid k view gid lid) (hnarrow : k.Narrow) : lid < 2 ^ 63 := by
  rcases h with ⟨-, rfl⟩ | ⟨-, ov, -, rfl⟩
  · exact hnarrow _ _ _
  · exact hnarrow _ _ _

/-- The store with the edges in the lists of each direction. -/
structure EdgesInv (k : Partition) (s : GraphStore) (view : Nat → LabelView) (w : Nat)
    (edges : Seggraph.Dir → List GraphStore.EdgeRecord) : Prop where
  store : StoreInv k s view w
  lists : ∀ d, Follows k view d (edges d)

def InnerEnd (k : Partition) (view : Nat → LabelView) (gid : Nat) : Prop :=
  k.parser.getOffset gid < (view (k.parser.getLabelId gid)).inner

theorem InnerEnd.grown (h : InnerEnd k view gid) (hinner : ∀ i, (view i).inner ≤ (view' i).inner) :
    InnerEnd k view' gid := Nat.lt_of_lt_of_le h (hinner _)

/-- The lists of the inner vertices stay shorter than the counters of their blocks count. -/
def Partition.Counts (k : Partition) (edges : List GraphStore.EdgeRecord) : Prop :=
  k.small ∨ ∀ vlabel v e d, (edges.filter fun r => OnVertex k vlabel v e d r).length < 2 ^ 32

theorem Partition.Counts.of_append {more : List GraphStore.EdgeRecord} (h : k.Counts (edges ++ more)) :
    k.Counts edges := by
  refine h.imp_right fun hcount vlabel v e d => ?_
  have hall := hcount vlabel v e d
  rw [List.filter_append, List.length_append] at hall
  exact Nat.lt_of_le_of_lt (Nat.le_add_right _ _) hall

theorem Follows.room (h : Follows k view d edges) (hmine : k.parser.getFid (r.vid d) = k.pid)
    (hcounts : k.Counts (edges ++ [r])) : k.small ∨
      ((view (k.parser.getLabelId (r.vid d))).log (k.parser.getOffset (r.vid d)) r.elabel d).length + 1 < 2 ^ 32 := by
  refine hcounts.imp_right fun hcount => ?_
  have hall := hcount (k.parser.getLabelId (r.vid d)) (k.parser.getOffset (r.vid d)) r.elabel d
  have hone : ([r].filter fun r' => OnVertex k (k.parser.getLabelId (r.vid d)) (k.parser.getOffset (r.vid d)) r.elabel
      d r') = [r] := List.filter_cons_of_pos (decide_eq_true ⟨hmine, rfl, rfl, rfl⟩)
  rw [List.filter_append, List.length_append, hone] at hall
  rw [(h _ _ _).length_eq]
  exact hall

end views

/-! ### An edge -/

section edge
variable {k : Partition} {s s' : GraphStore} {view : Nat → LabelView} {w ov lid : Nat}
  {edges : Seggraph.Dir → List GraphStore.EdgeRecord} {r : GraphStore.EdgeRecord} {d : Seggraph.Dir} {data : Bytes}

/-- After one of the two calls of `put_edge` for an edge. -/
def AfterPut (k : Partition) (s' : GraphStore) (view : Nat → LabelView) (w : Nat)
    (edges : Seggraph.Dir → List GraphStore.EdgeRecord) (r : GraphStore.EdgeRecord) (d : Seggraph.Dir) : Prop :=
  (k.parser.getFid (r.vid d) = k.pid → InnerEnd k view (r.vid d)) ∧
    ∃ view', EdgesInv k s' view' w (Function.update edges d (edges d ++ [r])) ∧ Grown view view'

theorem follows_update {view' : Nat → LabelView} (hsame : Follows k view' d (edges d ++ [r]))
    (hother : ∀ d', d' ≠ d → Follows k view' d' (edges d')) (d' : Seggraph.Dir) :
    Follows k view' d' (Function.update edges d (edges d ++ [r]) d') := by
  by_cases hd : d' = d
  · rw [hd, Function.update_self]
    exact hsame
  · rw [Function.update_of_ne hd]
    exact hother d' hd

theorem EdgesInv.putInner (h : EdgesInv k s view w edges) (hle : r.epoch ≤ w)
    (hmine : k.parser.getFid (r.vid d) = k.pid) (hlid : HasLid k view (r.other d) lid) (hnarrow : k.Narrow)
    (hdata : data.length = k.stride r.elabel) (hcounts : k.Counts (edges d ++ [r]))
    (hstep : s.onGraph (k.parser.getLabelId (r.vid d)) (fun g =>
      g.putEdge r.epoch (k.parser.getOffset (r.vid d)) r.elabel d lid data) = .ok s') :
    AfterPut k s' view w edges r d := by
  have hlt : lid < 2 ^ 64 := Nat.lt_trans (hlid.lt hnarrow) (by decide)
  obtain ⟨hoffset, seen, hstore⟩ := h.store.putEdge hdata hlt hle ((h.lists d).room hmine hcounts) hstep
  refine ⟨fun _ => hoffset, _, ⟨hstore, follows_update ?_ fun d' hd => ?_⟩, grown_addInnerEntry⟩
  · exact (h.lists d).add hmine hlid
  · refine (h.lists d').grown grown_addInnerEntry.outer fun i v e => ?_
    rw [addInnerEntry_log, if_neg fun hon => hd hon.2.2.2]

theorem EdgesInv.putOuter (h : EdgesInv k s view w edges) (hle : r.epoch ≤ w)
    (hforeign : k.parser.getFid (r.vid d) ≠ k.pid) (hlid : HasLid k view (r.other d) lid) (hnarrow : k.Narrow)
    (hdata : data.length = k.stride r.elabel)
    (hstep : s.onOvGraph (k.parser.getLabelId (r.vid d)) (fun g => g.putEdge r.epoch ov r.elabel d lid data) = .ok s') :
    AfterPut k s' view w edges r d := by
  have hlt : lid < 2 ^ 64 := Nat.lt_trans (hlid.lt hnarrow) (by decide)
  obtain ⟨seen, hstore⟩ := h.store.putOvEdge hdata hlt hle hstep
  have hsame : ∀ d', Follows k (addOuterEntry view (k.parser.getLabelId (r.vid d)) ov r.elabel d
      ⟨seen, ⟨lid, data⟩⟩) d' (edges d') := fun d' =>
    (h.lists d').grown grown_addOuterEntry.outer fun i v e => by rw [addOuterEntry_log]
  exact ⟨fun hmine => absurd hmine hforeign, _, ⟨hstore, follows_update ((hsame d).skip hforeign) fun d' _ => hsame d'⟩,
    grown_addOuterEntry⟩

/-- After an edge; the ends that are in the partition are inner vertices. -/
def AfterEdge (k : Partition) (s' : GraphStore) (view : Nat → LabelView) (w : Nat)
    (edges : Seggraph.Dir → List GraphStore.EdgeRecord) (r : GraphStore.EdgeRecord) : Prop :=
  (∀ d, k.parser.getFid (r.vid d) = k.pid → InnerEnd k view (r.vid d)) ∧
    ∃ view', EdgesInv k s' view' w (fun d => edges d ++ [r]) ∧ Grown view view'

theorem AfterEdge.of_grown {view' : Nat → LabelView} (h : AfterEdge k s' view' w edges r) (hgrown : Grown view view') :
    AfterEdge k s' view w edges r := by
  obtain ⟨hends, view'', hinv, hgrown'⟩ := h
  exact ⟨fun d hmine => (hends d hmine).grown fun i => Nat.le_of_eq (hgrown.inner i), view'', hinv,
      hgrown.trans hgrown'⟩

theorem AfterPut.both {s'' : GraphStore} (h : AfterPut k s' view w edges r .eout)
    (hnext : ∀ view', Grown view view' →
      EdgesInv k s' view' w (Function.update edges .eout (edges .eout ++ [r])) →
      AfterPut k s'' view' w (Function.update edges .eout (edges .eout ++ [r])) r .ein) :
    AfterEdge k s'' view w edges r := by
  obtain ⟨hsrc, view1, hinv1, hgrown1⟩ := h
  obtain ⟨hdst, view2, hinv2, hgrown2⟩ := hnext view1 hgrown1 hinv1
  refine ⟨fun d hmine => ?_, view2, ⟨hinv2.store, fun d => ?_⟩, hgrown1.trans hgrown2⟩
  · cases d with
    | eout => exact hsrc hmine
    | ein => exact (hdst hmine).grown fun i => Nat.le_of_eq (hgrown1.inner i)
  · have hlist := hinv2.lists d
    cases d
    · simpa using hlist
    · simpa using hlist

theorem hasLid_withOuter {outer : List Nat} {vid : Nat} (hfid : k.parser.getFid vid ≠ k.pid)
    (hov : outer[ov]? = some vid) : HasLid k (withOuter view (k.parser.getLabelId vid) outer) vid
      (outerLidOf k.parser (k.parser.getLabelId vid) ov) := by
  refine Or.inr ⟨hfid, ov, ?_, rfl⟩
  unfold withOuter
  rw [Function.update_self]
  exact hov

theorem hasLid_inner {vid : Nat} (hfid : k.parser.getFid vid = k.pid) :
    HasLid k view vid (k.parser.generateId 0 (k.parser.getLabelId vid) (k.parser.getOffset vid)) :=
  Or.inl ⟨hfid, rfl⟩

theorem EdgesInv.outerEndpoint {recycle : Bool} {epoch vid : Nat} {externalId : Bytes}
    (h : EdgesInv k s view w edges) (hfid : k.parser.getFid vid ≠ k.pid)
    (hstep : s.outerEndpoint recycle epoch vid externalId = .ok (ov, s')) :
    ∃ view', EdgesInv k s' view' w edges ∧ Grown view view' ∧
      HasLid k view' vid (outerLidOf k.parser (k.parser.getLabelId vid) ov) := by
  obtain ⟨outer, hstore, hprefix, hov⟩ := h.store.outerEndpoint hfid hstep
  refine ⟨_, ⟨hstore, fun d => ?_⟩, grown_withOuter hprefix, hasLid_withOuter hfid hov⟩
  exact (h.lists d).grown (grown_withOuter hprefix).outer fun i v e => by rw [withOuter_log]

theorem EdgesInv.addEdge {draws : GraphStore.Draws} (h : EdgesInv k s view w edges) (hnarrow : k.Narrow)
    (hle : r.epoch ≤ w) (hcounts : ∀ d, k.Counts (edges d ++ [r])) (hstep : s.processAddEdge draws r = .ok s') :
    AfterEdge k s' view w edges r ∧ ∀ d, k.parser.getFid (r.vid d) = k.pid → EdgeKnown k r := by
  unfold GraphStore.processAddEdge at hstep
  dsimp only at hstep
  rw [h.store.idParser, h.store.localPid] at hstep
  split at hstep
  · rename_i hneither
    rw [← Except.ok.inj hstep]
    have hforeign : ∀ d, k.parser.getFid (r.vid d) ≠ k.pid := by
      intro d
      cases d
      · exact hneither.1
      · exact hneither.2
    exact ⟨⟨fun d hmine => absurd hmine (hforeign d), view, ⟨h.store, fun d => (h.lists d).skip (hforeign d)⟩,
      .refl view⟩, fun d hmine => absurd hmine (hforeign d)⟩
  · rename_i hsome
    obtain ⟨⟨data, s1⟩, hprepare, hstep⟩ := bind_eq_ok hstep
    obtain ⟨hstore1, hdata, hknown⟩ := h.store.prepareEdge hprepare
    refine ⟨?_, fun _ _ => hknown⟩
    have h1 : EdgesInv k s1 view w edges := ⟨hstore1, h.lists⟩
    have hcountsIn : k.Counts (Function.update edges .eout (edges .eout ++ [r]) .ein ++ [r]) := by
      rw [Function.update_of_ne (by decide)]
      exact hcounts .ein
    dsimp only at hstep
    rw [hstore1.localPid] at hstep
    split at hstep
    · rename_i hcase
      obtain ⟨⟨ov, s2⟩, hendpoint, hstep⟩ := bind_eq_ok hstep
      obtain ⟨view2, h2, hgrown2, hlid⟩ := h1.outerEndpoint hcase.2 hendpoint
      obtain ⟨s3, hout, hin⟩ := bind_eq_ok hstep
      have houter : s2.outerLid (k.parser.getLabelId r.dstVid) ov =
          outerLidOf k.parser (k.parser.getLabelId r.dstVid) ov := by
        rw [← h2.store.idParser]
        rfl
      rw [houter] at hout
      have hafter : AfterPut k s3 view2 w edges r .eout :=
        h2.putInner hle hcase.1 hlid hnarrow hdata (hcounts .eout) hout
      exact (hafter.both fun view3 hgrown3 h3 =>
        h3.putOuter hle hcase.2 (hasLid_inner hcase.1) hnarrow hdata hin).of_grown hgrown2
    · split at hstep
      · rename_i hcase
        obtain ⟨⟨ov, s2⟩, hendpoint, hstep⟩ := bind_eq_ok hstep
        obtain ⟨view2, h2, hgrown2, hlid⟩ := h1.outerEndpoint hcase.1 hendpoint
        obtain ⟨s3, hout, hin⟩ := bind_eq_ok hstep
        have hafter : AfterPut k s3 view2 w edges r .eout :=
          h2.putOuter hle hcase.1 (hasLid_inner hcase.2) hnarrow hdata hout
        refine (hafter.both fun view3 hgrown3 h3 => ?_).of_grown hgrown2
        have houter : s3.outerLid (k.parser.getLabelId r.srcVid) ov =
            outerLidOf k.parser (k.parser.getLabelId r.srcVid) ov := by
          rw [← h3.store.idParser]
          rfl
        rw [houter] at hin
        exact h3.putInner hle hcase.2 (hlid.grown hgrown3.outer) hnarrow hdata hcountsIn hin
      · rename_i hnot hnot'
        have hsrc : k.parser.getFid r.srcVid = k.pid := by
          by_contra hne
          by_cases hdst : k.parser.getFid r.dstVid = k.pid
          · exact hnot' ⟨hne, hdst⟩
          · exact hsome ⟨hne, hdst⟩
        have hdst : k.parser.getFid r.dstVid = k.pid := by
          by_contra hne
          exact hnot ⟨hsrc, hne⟩
        obtain ⟨s3, hout, hin⟩ := bind_eq_ok hstep
        have hafter : AfterPut k s3 view w edges r .eout :=
          h1.putInner hle hsrc (hasLid_inner hdst) hnarrow hdata (hcounts .eout) hout
        exact hafter.both fun view3 hgrown3 h3 =>
          h3.putInner hle hdst (hasLid_inner hsrc) hnarrow hdata hcountsIn hin

end edge

/-! ### A vertex -/

section vertex
variable {k : Partition} {s s' : GraphStore} {view : Nat → LabelView} {w : Nat}
  {edges : Seggraph.Dir → List GraphStore.EdgeRecord} {l l' : LabelStore} {epoch gid : Nat} {recycle : Bool}
  {externalId : Bytes} {vprop : List Bytes}

def withInner (view : Nat → LabelView) (vlabel : Nat) : Nat → LabelView :=
  Function.update view vlabel { view vlabel with inner := (view vlabel).inner + 1 }

theorem LabelInv.insert {vlabel : Nat} {v : LabelView} (h : LabelInv k vlabel l v w)
    (hl' : Inserted s s' recycle epoch gid vprop l l') :
    LabelInv k vlabel l' { v with inner := v.inner + 1 } w := by
  have hsame := Seggraph.createGraphWriter_sameGraph l.graph recycle epoch
  constructor
  · rw [hl'.graph]
    exact (h.graph.writer recycle epoch).newVertex
  · rw [hl'.ovGraph]
    exact h.ovGraph
  · rw [hl'.graph, Seggraph.newVertex_vertexId, hsame.vertexId, h.inner]
  · rw [hl'.ovGraph]
    exact h.outer
  · exact h.maps.congr hl'.keyLid hl'.ovl2g hl'.ovg2l
  · exact h.table.addInner hl'.vtable
  · intro hsmall
    rw [hl'.graph, newVertex_capacity, hsame.capacity]
    exact h.small hsmall
  · rw [hl'.ovGraph]
    exact h.ovSmall

theorem EdgesInv.insert (h : EdgesInv k s view w edges)
    (hstep : s.insertInnerVertex recycle epoch gid externalId vprop = .ok s') :
    ∃ view', EdgesInv k s' view' w edges ∧ (∀ i, (view' i).inner = (view i).inner +
      if k.parser.getFid gid = k.pid ∧ k.parser.getLabelId gid = i then 1 else 0) ∧
      k.parser.getLabelId gid < k.labels := by
  obtain ⟨l, l', hone, hcases⟩ := insertInnerVertex_cases hstep
  rw [h.store.idParser] at hone
  rw [h.store.idParser, h.store.localPid] at hcases
  have hlabel : k.parser.getLabelId gid < k.labels := by
    rw [← h.store.labels]
    exact (List.getElem?_eq_some_iff.mp hone.before).1
  rcases hcases with ⟨hfid, ⟨map, rfl⟩, -⟩ | ⟨hfid, hl'⟩
  · have hstore := h.store.one hone fun hl =>
      { hl with maps := hl.maps.congr rfl rfl rfl }
    rw [Function.update_eq_self] at hstore
    refine ⟨view, ⟨hstore, h.lists⟩, fun i => ?_, hlabel⟩
    rw [if_neg fun hmine => hfid hmine.1]
    rfl
  · have hstore := h.store.one hone fun hl => hl.insert hl'
    have hview : ∀ i, (withInner view (k.parser.getLabelId gid) i).outer = (view i).outer ∧
        (withInner view (k.parser.getLabelId gid) i).log = (view i).log := by
      intro i
      unfold withInner
      by_cases hi : i = k.parser.getLabelId gid
      · rw [hi, Function.update_self]
        exact ⟨rfl, rfl⟩
      · rw [Function.update_of_ne hi]
        exact ⟨rfl, rfl⟩
    refine ⟨withInner view (k.parser.getLabelId gid), ⟨hstore, fun d => ?_⟩, fun i => ?_, hlabel⟩
    · refine (h.lists d).grown (fun i => ?_) fun i v e => ?_
      · rw [(hview i).1]
      · rw [(hview i).2]
    · unfold withInner
      by_cases hi : i = k.parser.getLabelId gid
      · rw [hi, Function.update_self, if_pos ⟨hfid, rfl⟩]
      · rw [Function.update_of_ne hi, if_neg fun hmine => hi hmine.2.symm]
        rfl

end vertex

/-! ### The run -/

section run
variable {k : Partition} {s s' : GraphStore} {w : Nat} {log more : List Record}

/-- A partition after it has applied a log with epochs up to `w`. -/
structure Applied (k : Partition) (s : GraphStore) (view : Nat → LabelView) (log : List Record) (w : Nat) : Prop where
  edges : EdgesInv k s view w fun _ => edgesOf log
  inner : ∀ vlabel, (view vlabel).inner = (arriving k.parser k.pid vlabel (gidsOf log)).length
  ends : ∀ r ∈ edgesOf log, ∀ d, k.parser.getFid (r.vid d) = k.pid →
    InnerEnd k view (r.vid d) ∧ EdgeKnown k r

theorem Applied.addVertex {view : Nat → LabelView} {recycle : Bool} {cmd : VertexCmd} (h : Applied k s view log w)
    (hstep : s.processAddVertex recycle cmd = .ok s') : ∃ view', Applied k s' view' (log ++ [.addVertex cmd]) w := by
  obtain ⟨view', hinv', hinner', -⟩ := h.edges.insert hstep
  have hedges : edgesOf (log ++ [.addVertex cmd]) = edgesOf log := by
    rw [edgesOf_append]
    exact List.append_nil _
  have hgids : gidsOf (log ++ [.addVertex cmd]) = gidsOf log ++ [cmd.vid] := gidsOf_append _ _
  refine ⟨view', ?_, fun i => ?_, ?_⟩
  · rw [hedges]
    exact hinv'
  · rw [hinner', h.inner, hgids, arriving_append, arriving_singleton, List.length_append]
    by_cases hmine : k.parser.getFid cmd.vid = k.pid ∧ k.parser.getLabelId cmd.vid = i
    · rw [if_pos hmine, if_pos hmine]
      rfl
    · rw [if_neg hmine, if_neg hmine]
      rfl
  · rw [hedges]
    intro r hr d hmine
    obtain ⟨hend, hknown⟩ := h.ends r hr d hmine
    refine ⟨hend.grown fun i => ?_, hknown⟩
    rw [hinner']
    exact Nat.le_add_right _ _

theorem Applied.addEdge {view : Nat → LabelView} {draws : GraphStore.Draws} {cmd : EdgeCmd}
    (h : Applied k s view log w) (hnarrow : k.Narrow) (hle : cmd.toRecord.epoch ≤ w)
    (hcounts : k.Counts (edgesOf (log ++ [.addEdge cmd])))
    (hstep : s.processAddEdge draws cmd.toRecord = .ok s') :
    ∃ view', Applied k s' view' (log ++ [.addEdge cmd]) w := by
  have hedges : edgesOf (log ++ [.addEdge cmd]) = edgesOf log ++ [cmd.toRecord] := edgesOf_append _ _
  have hgids : gidsOf (log ++ [.addEdge cmd]) = gidsOf log := by
    rw [gidsOf_append]
    exact List.append_nil _
  rw [hedges] at hcounts
  obtain ⟨⟨hends, view', hinv', hgrown⟩, hknown⟩ := h.edges.addEdge hnarrow hle (fun _ => hcounts) hstep
  have hkeep : ∀ i, (view i).inner ≤ (view' i).inner := fun i => Nat.le_of_eq (hgrown.inner i).symm
  refine ⟨view', ?_, fun i => ?_, fun r hr d hmine => ?_⟩
  · rw [hedges]
    exact hinv'
  · rw [hgrown.inner, h.inner, hgids]
  · rw [hedges] at hr
    rcases List.mem_append.mp hr with hold | hnew
    · exact ⟨(h.ends r hold d hmine).1.grown hkeep, (h.ends r hold d hmine).2⟩
    · rw [List.mem_singleton.mp hnew] at hmine ⊢
      exact ⟨(hends d hmine).grown hkeep, hknown d hmine⟩

theorem Applied.run {view : Nat → LabelView} {lines : List (GraphStore.Draws × Record)}
    (h : Applied k s view log w) (hnarrow : k.Narrow) (hepochs : ∀ r ∈ lines, r.2.epoch ≤ w)
    (hcounts : k.Counts (edgesOf (log ++ lines.map Prod.snd)))
    (hrun : lines.foldlM GraphStore.applyAdd s = .ok s') :
    ∃ view', Applied k s' view' (log ++ lines.map Prod.snd) w := by
  induction lines generalizing s view log with
  | nil =>
    rw [← Except.ok.inj hrun, List.map_nil, List.append_nil]
    exact ⟨view, h⟩
  | cons r lines ih =>
    rw [List.foldlM_cons] at hrun
    obtain ⟨s'', hstep, hrun⟩ := bind_eq_ok hrun
    obtain ⟨hle, hepochs⟩ := List.forall_mem_cons.mp hepochs
    have hsplit : log ++ (r :: lines).map Prod.snd = log ++ [r.2] ++ lines.map Prod.snd := by simp
    rw [hsplit] at hcounts ⊢
    have hnext : ∃ view', Applied k s'' view' (log ++ [r.2]) w := by
      obtain ⟨draws, rec⟩ := r
      cases rec with
      | addVertex cmd => exact h.addVertex hstep
      | addEdge cmd =>
        rw [edgesOf_append] at hcounts
        exact h.addEdge hnarrow hle hcounts.of_append hstep
      | updateVertex cmd => cases hstep
      | deleteVertex cmd => cases hstep
      | deleteEdge cmd => cases hstep
      | bulkloadEnd epoch => cases hstep
      | unsupported op => cases hstep
    obtain ⟨view1, hnext⟩ := hnext
    exact ih hnext hepochs hcounts hrun

end run

/-! ### The empty store -/

def partitionOf (c : StoreConfig) (sb : SchemaBuild) : Partition :=
  { parser := IdParser.init c.totalPartitions
    pid := c.localPid
    labels := (GraphStore.create c sb).labels.length
    edgeLabels := (GraphStore.create c sb).edgeDtypes.length
    stride := fun l => GraphStore.edgeDataSize ((GraphStore.create c sb).edgeDtypes.getD l [])
    tableSize := fun i => (c.label i).vertexCapacity + (c.label i).ovVertexCapacity
    small := ∀ i, (c.label i).blockSize ≤ 2 ^ 35 }

theorem applied_create {c : StoreConfig} {sb : SchemaBuild} {w : Nat}
    (hcap : ∀ i, (c.label i).blockSize ≤ 2 ^ 64) (hov : ∀ i, (c.label i).ovBlockSize ≤ 2 ^ 35)
    (hdirected : ∀ l, c.edgeIsUndirected.getD l false = false) :
    Applied (partitionOf c sb) (GraphStore.create c sb) (fun _ => ⟨0, [], Seggraph.emptyLog, Seggraph.emptyLog⟩) []
      w := by
  refine ⟨⟨⟨rfl, rfl, rfl, rfl, fun _ => rfl, fun i l hl => ?_⟩, ?_⟩, fun _ => rfl, fun r hr => (by cases hr)⟩
  · unfold GraphStore.create at hl
    dsimp only at hl
    rw [List.getElem?_map, List.getElem?_zipIdx] at hl
    obtain ⟨x, hx, rfl⟩ := Option.map_eq_some_iff.mp hl
    obtain ⟨layout, -, rfl⟩ := Option.map_eq_some_iff.mp hx
    rw [Nat.zero_add]
    constructor
    · exact graphOk_create (hcap i) hdirected
    · exact graphOk_create (Nat.le_trans (hov i) (by decide)) hdirected
    · rfl
    · rfl
    · exact outerMaps_nil rfl rfl
    · exact tableOk_create _
    · intro hsmall
      simp only [LabelStore.create, Seggraph.SegGraph.create, Seggraph.BlockManager.create_eq]
      exact hsmall i
    · simp only [LabelStore.create, Seggraph.SegGraph.create, Seggraph.BlockManager.create_eq]
      exact hov i
  · intro d vlabel v e
    exact .nil

end Gart.Store
