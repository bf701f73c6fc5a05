import Gart.Fragment.LoadedSpec

/-!
# Readers beside a writer

A reader takes no lock. Its loads are spread over the steps of a writer whose calls are of later epochs, and it still
yields the snapshot of its own epoch. There is one exception, which the writer causes when it links a new edge block
in front of a full one: until the first entry of that block is counted, the list looks empty.
-/

namespace Gart.Fragment
open Gart.ByteMemory Gart.Outcome Gart.Seggraph Gart.Loads SegGraph

def NewestEmpty (g : SegGraph) (v l : Nat) (d : Dir) : Prop :=
  let segment := g.locateSegment (v / vertexPerSeg) l d
  let edgeBlock := (g.segments segment).regionPtrs (v % vertexPerSeg)
  segment ≠ 0 ∧ edgeBlock ≠ 0 ∧ (g.segments segment).getNumEntries edgeBlock = 0

/-- The writer goes on, and `seen` says that a load met an empty block in front of the list. -/
def Observed (r : Watched) (seen : Prop) (w w' : Writing) : Prop :=
  Relation.ReflTransGen (WriterStep r.toReadList) w w' ∧ (NewestEmpty w'.graph r.v r.label r.dir → seen)

section observed
variable {r : Watched} {seen : Prop} {w w' : Writing} {P : SegGraph → Prop}

theorem Observed.kept (h : Observed r seen w w') (hinv : InvAt r w.graph w.pc)
    (hP : ∀ g g', Shows r g → Change r g g' → P g → P g') (hp : P w.graph) :
    InvAt r w'.graph w'.pc ∧ P w'.graph := by
  have hrun := h.1
  clear h
  induction hrun with
  | refl => exact ⟨hinv, hp⟩
  | tail _ hstep ih =>
    obtain ⟨hinv', hchange⟩ := hstep.inv ih.1
    exact ⟨hinv', hP _ _ (shows_of_invAt ih.1) hchange ih.2⟩

theorem Observed.inv (h : Observed r seen w w') (hinv : InvAt r w.graph w.pc) : InvAt r w'.graph w'.pc :=
  (h.kept (P := fun _ => True) hinv (fun _ _ _ _ _ => trivial) trivial).1

def MayYield (r : Watched) (seen : Prop) (result : Except Fault (List (Nat × Bytes))) : Prop :=
  result = .ok (snapshotValues r) ∨ (result = .ok [] ∧ seen)

theorem mayYield_of_nil (hnil : r.snapshot = []) : MayYield r seen (.ok []) := by
  left
  rw [snapshotValues_of_nil hnil]

abbrev Guaranteed (r : Watched) (seen : Prop) (w : Writing) (p : Loads SegGraph (Except Fault (List (Nat × Bytes)))) :
    Prop :=
  Holds Writing.graph (Observed r seen) (fun result _ => MayYield r seen result) w p

theorem guaranteed_empty (segment : Nat) (h : MayYield r seen (.ok [])) :
    Guaranteed r seen w (Loaded.readAll (.ok (Cursor.empty segment r.stride))) := by
  unfold Loaded.readAll
  refine holds_get_bind fun w' _ => ?_
  have hlist : ∀ fuel, Cursor.toList fuel (Cursor.empty segment r.stride) = pure (.ok []) := by
    intro fuel
    cases fuel <;> simp [Cursor.toList, Cursor.valid, Cursor.empty]
  rw [hlist]
  exact holds_pure h

theorem locateSegment_holds (hinv : InvAt r w.graph w.pc) :
    Holds Writing.graph (Observed r seen) (fun segment w' => InvAt r w'.graph w'.pc ∧ HeldSegment r w'.graph segment) w
      (Loaded.locateSegment r.segid r.label r.dir) := by
  unfold Loaded.locateSegment
  refine holds_get_bind fun w1 h1 => ?_
  have hinv1 := h1.inv hinv
  have hlabels := heldLabels_current (shows_of_invAt hinv1)
  refine holds_ite (fun h0 => holds_pure ⟨hinv1, ?_⟩) fun hne => holds_get fun w2 h2 => ?_
  · cases hlabels with
    | none _ hnil => exact .none rfl hnil
    | current hne => exact absurd h0 hne
    | old hne => exact absurd h0 hne
  · obtain ⟨hinv2, hlabels2⟩ := h2.kept hinv1 (fun _ _ hs hc h => HeldLabels.step h hs hc) hlabels
    exact ⟨hinv2, hlabels2.segment hne (shows_of_invAt hinv2)⟩

theorem FoundBlock.pointer_ne_zero (f : FoundBlock) : f.pointer ≠ 0 := Block.pointer_ne_zero _ _

theorem create_holds {f : FoundBlock} {edges : List Edge} {table : Nat} (hinv : InvAt r w.graph w.pc)
    (htable : HeldTable r w.graph table) (ht0 : table ≠ 0) (hblock : HeldBlock r w.graph f edges) :
    Guaranteed r seen w (Cursor.create f.segment f.pointer table edges.length r.stride r.epoch >>= Loaded.readAll) := by
  have hge := hblock.count_le
  unfold Cursor.create
  rw [bind_assoc]
  refine holds_get_bind fun w' hw => ?_
  obtain ⟨-, htable'⟩ := hw.kept hinv (fun _ _ hs hc h => HeldTable.step h hs hc) htable
  obtain ⟨hinv', edges', hle, hblock'⟩ := hw.kept (P := fun g => ∃ edges', edges.length ≤ edges'.length ∧
    HeldBlock r g f edges') hinv (fun _ _ hs hc h => by
      obtain ⟨edges', hle, hblock⟩ := h
      obtain ⟨edges'', hle', hblock'⟩ := hblock.step hs hc
      exact ⟨edges'', hle.trans hle', hblock'⟩) ⟨edges, Nat.le_refl _, hblock⟩
  have hshows := shows_of_invAt hinv'
  have huse : ¬ w'.graph.blockManager.Available table := by
    cases htable' with
    | none h0 => exact absurd h0 ht0
    | old hold => exact hold.2.1
    | current _ hne heq =>
      obtain ⟨C, hshown⟩ := hshows.located hne
      subst heq
      exact (hshown.table.some ht0).1
  have hends := htable'.ends ht0 hshows hblock' hle hge
  have hreads := createCounted_snapshot (V := fun w => InvAt r w.graph w.pc ∧ (∃ edges', HeldBlock r w.graph f edges') ∧
    ¬ w.graph.blockManager.Available table ∧
      (w'.graph.epochBlocks table).entries <:+ (w.graph.epochBlocks table).entries)
    hblock' (fun w hw => hw.2.1) (fun w hw => hw.2.2.2) hends
  refine (hreads.within.holds (fun u u' hu hV => ?_) ⟨hinv', ⟨edges', hblock'⟩, huse, List.suffix_rfl⟩).mono ?_
  · obtain ⟨hinvU, hP⟩ := hu.kept (P := fun g => (∃ edges', HeldBlock r g f edges') ∧
      ¬ g.blockManager.Available table ∧
        (w'.graph.epochBlocks table).entries <:+ (g.epochBlocks table).entries) hV.1 (fun g g' hs hc h => by
      obtain ⟨⟨edges', hblock⟩, huse, hsuf⟩ := h
      obtain ⟨edges'', -, hblock'⟩ := hblock.step hs hc
      exact ⟨⟨edges'', hblock'⟩, fun hav => huse (hc.shrink hav), hsuf.trans (hc.entries_suffix huse)⟩) hV.2
    exact ⟨hinvU, hP⟩
  · rintro result u ⟨heq, -⟩
    exact Or.inl (heq.trans hreads.eval)

theorem getEdgesInSeg_holds {segment : Nat} (hinv : InvAt r w.graph w.pc) (hsegment : HeldSegment r w.graph segment) :
    Guaranteed r seen w (Loaded.getEdgesInSeg segment r.segidx r.stride r.epoch >>= Loaded.readAll) := by
  unfold Loaded.getEdgesInSeg
  by_cases h0 : segment = 0
  · rw [if_pos h0]
    cases hsegment with
    | none _ hnil => exact guaranteed_empty _ (mayYield_of_nil hnil)
    | current hne => exact absurd h0 hne
    | old hne => exact absurd h0 hne
  · rw [if_neg h0, bind_assoc]
    refine holds_get_bind fun w1 h1 => ?_
    obtain ⟨hinv1, hsegment1⟩ := h1.kept hinv (fun _ _ hs hc h => HeldSegment.step h hs hc) hsegment
    have htable1 := hsegment1.table h0 (shows_of_invAt hinv1)
    beta_reduce
    generalize (w1.graph.segments segment).epochTables r.segidx = table at htable1 ⊢
    rw [bind_assoc]
    refine holds_get_bind fun w2 h2 => ?_
    obtain ⟨hinv2, hsegment2⟩ := h2.kept hinv1 (fun _ _ hs hc h => HeldSegment.step h hs hc) hsegment1
    obtain ⟨-, htable2⟩ := h2.kept hinv1 (fun _ _ hs hc h => HeldTable.step h hs hc) htable1
    have hregion2 := hsegment2.region h0 (shows_of_invAt hinv2)
    beta_reduce
    generalize (w2.graph.segments segment).regionPtrs r.segidx = edgeBlock at hregion2 ⊢
    by_cases hnone : table = 0 ∨ edgeBlock = 0
    · rw [if_pos hnone]
      refine guaranteed_empty _ (mayYield_of_nil ?_)
      rcases hnone with ht0 | he0
      · cases htable2 with
        | none _ hnil => exact hnil
        | current hne => exact absurd ht0 hne
        | old hold => exact absurd ht0 hold.1
      · rcases hregion2 with ⟨-, hnil⟩ | ⟨f, edges, -, hptr, -⟩
        · exact hnil
        · exact absurd (hptr.symm.trans he0) f.pointer_ne_zero
    · rw [if_neg hnone, bind_assoc]
      rw [not_or] at hnone
      obtain ⟨f, edges, rfl, rfl, hblock⟩ := hregion2.resolve_left fun h => hnone.2 h.1
      refine holds_get_bind fun w3 h3 => ?_
      obtain ⟨hinv3, edges3, hblock3⟩ := h3.kept (P := fun g => ∃ edges', HeldBlock r g f edges') hinv2
        (fun _ _ hs hc h => by
          obtain ⟨edges', hblock⟩ := h
          obtain ⟨edges'', -, hblock'⟩ := hblock.step hs hc
          exact ⟨edges'', hblock'⟩) ⟨edges, hblock⟩
      obtain ⟨-, htable3⟩ := h3.kept hinv2 (fun _ _ hs hc h => HeldTable.step h hs hc) htable2
      have hnum : (w3.graph.segments f.segment).getNumEntries f.pointer = edges3.length := by
        have hnum := hblock3.chain.1.getNumEntries
        rw [hblock3.head] at hnum
        exact hnum
      beta_reduce
      rw [hnum]
      by_cases hzero : edges3.length = 0
      · rw [if_pos hzero]
        refine guaranteed_empty _ (Or.inr ⟨rfl, h3.2 ?_⟩)
        have hnil := List.eq_nil_of_length_eq_zero hzero
        cases hblock3.place with
        | old _ hne => exact absurd hnil hne
        | current C hseg hlayout _ hnewest =>
          have hregion : (w3.graph.segments f.segment).regionPtrs r.segidx = f.pointer := by
            rw [hlayout.region, hnewest hnil, hblock3.head]
            rfl
          unfold NewestEmpty
          dsimp only
          change r.segment w3.graph ≠ 0 ∧ (w3.graph.segments (r.segment w3.graph)).regionPtrs r.segidx ≠ 0 ∧
            (w3.graph.segments (r.segment w3.graph)).getNumEntries
              ((w3.graph.segments (r.segment w3.graph)).regionPtrs r.segidx) = 0
          rw [← hseg, hregion, hnum]
          exact ⟨h0, f.pointer_ne_zero, hzero⟩
      · rw [if_neg hzero]
        exact create_holds hinv3 htable3 hnone.1 hblock3

theorem readAdjList_holds (hinv : InvAt r w.graph w.pc) :
    Guaranteed r seen w (Loaded.readAdjList r.v r.label r.dir r.stride r.epoch) := by
  unfold Loaded.readAdjList
  refine (locateSegment_holds hinv).bind fun segment w' h => ?_
  exact getEdgesInSeg_holds h.1 h.2

end observed

/-! ### Behind a run -/

def ExactData (edgePropSize : Nat → Nat) : SegCall → Prop
  | .putEdge _ _ label _ _ edgeData => edgeData.length = edgePropSize label
  | _ => True

/-- The graph holds lists whose epochs do not decrease. -/
structure Logged (edgePropSize : Nat → Nat) (capacity : Nat) (g : SegGraph) : Prop where
  graph : ∃ own log, GraphInv (fun _ => True) edgePropSize g own log NoHole ∧
    ∀ v l d, (log v l d).Pairwise fun a b => a.epoch ≤ b.epoch
  capacity : g.blockManager.capacity = capacity

section run
variable {edgePropSize : Nat → Nat} {capacity : Nat} {undirected : List Bool} {calls : List SegCall} {t : RecycleRun}

theorem Logged.step (h : Logged edgePropSize capacity t.graph) (hcap : capacity ≤ 2 ^ 35) {call : SegCall}
    (hdata : ExactData edgePropSize call) :
    Ensures (call.run t) (fun t' => Logged edgePropSize capacity t'.graph) fun _ => True := by
  obtain ⟨own, log, hgraph, hsorted⟩ := h.graph
  cases call with
  | newVertex =>
    refine ⟨⟨own, log, newVertex_inv hgraph, hsorted⟩, ?_⟩
    obtain ⟨segId, heq, -, -⟩ := newVertex_eq hgraph
    rw [heq]
    exact h.capacity
  | recycleSegments epochId =>
    obtain ⟨own', hgraph'⟩ := recycleSegments_inv hgraph epochId
    exact ⟨⟨own', log, hgraph', hsorted⟩, (free_capacity _ _).trans h.capacity⟩
  | putEdge w src label dir dst data =>
    change data.length = edgePropSize label at hdata
    by_cases hsrc : src < t.graph.vertexId
    · obtain ⟨seen, hseen⟩ := exists_seenFrom w (log src label dir)
      have hput := putEdge_seen hgraph hsrc dst.toNat_lt (Or.inr hdata) (Nat.le_of_eq hdata) (fun _ => hdata)
        (fun _ => by rw [hdata]; exact fun hfits => hfits) hseen
        (hgraph.length_of_capacity (h.capacity ▸ hcap) src label dir)
      refine Ensures.bind (hput.mono (fun _ hq => hq) fun _ _ => trivial) ?_
      rintro g ⟨⟨own', hgraph'⟩, hsame⟩
      refine ⟨⟨own', _, hgraph', fun v l d => ?_⟩, hsame.capacity.trans h.capacity⟩
      by_cases hon : v = src ∧ l = label ∧ SameList (t.graph.isEdgeUndirected label) dir d
      · obtain ⟨rfl, rfl, hd⟩ := hon
        rw [appendLog_of_same hd, if_pos rfl, hgraph.log_same hd, List.pairwise_append]
        refine ⟨hsorted v l dir, List.pairwise_singleton _ _, fun entry hentry last hlast => ?_⟩
        rw [List.mem_singleton.mp hlast]
        exact hseen.bounded entry hentry
      · rw [appendLog_of_not hon]
        exact hsorted v l d
    · have hstop : (SegCall.putEdge w src label dir dst data).run t = .error .invalidVertexId := by
        unfold SegCall.run
        dsimp only
        rw [putEdge_invalid (Nat.not_lt.mp hsrc)]
        rfl
      rw [hstop]
      trivial

theorem logged_of_run (hcap : capacity ≤ 2 ^ 35) (hdata : ∀ call ∈ calls, ExactData edgePropSize call)
    (hrun : runSegCalls capacity undirected calls = .ok t) : Logged edgePropSize capacity t.graph := by
  have hstart : Logged edgePropSize capacity (create capacity undirected) := by
    refine ⟨⟨_, _, create_inv capacity undirected (hcap.trans (by decide)), fun _ _ _ => List.Pairwise.nil⟩, ?_⟩
    simp only [create, BlockManager.create_eq]
  have hinv : Ensures (runSegCalls capacity undirected calls) (fun t => Logged edgePropSize capacity t.graph)
      fun _ => True := by
    refine @foldlM_invariant Stop RecycleRun SegCall SegCall.run (fun _ t => Logged edgePropSize capacity t.graph)
      (fun _ => True) [] calls _ hstart ?_
    intro before call after t' hsplit hbefore
    rw [List.nil_append] at hsplit
    exact Logged.step hbefore hcap (hdata call (by rw [← hsplit]; simp))
  exact hinv.of_ok hrun

theorem split_upToEpoch {log : List LogEntry} (hsorted : log.Pairwise fun a b => a.epoch ≤ b.epoch) (e : Nat) :
    ∃ later, log = upToEpoch e log ++ later ∧ ∀ entry ∈ later, e < entry.epoch := by
  induction log with
  | nil => exact ⟨[], rfl, fun entry hentry => by cases hentry⟩
  | cons entry rest ih =>
    obtain ⟨hfirst, hrest⟩ := List.pairwise_cons.mp hsorted
    obtain ⟨later, heq, hlater⟩ := ih hrest
    by_cases he : entry.epoch ≤ e
    · refine ⟨later, ?_, hlater⟩
      have hcons : upToEpoch e (entry :: rest) = entry :: upToEpoch e rest :=
        List.filter_cons_of_pos (decide_eq_true he)
      rw [hcons, List.cons_append, ← heq]
    · have hall : ∀ other ∈ entry :: rest, e < other.epoch := by
        intro other hother
        rcases List.mem_cons.mp hother with rfl | hother
        · exact Nat.not_le.mp he
        · exact Nat.lt_of_lt_of_le (Nat.not_le.mp he) (hfirst other hother)
      have hnil : upToEpoch e (entry :: rest) = [] :=
        List.filter_eq_nil_iff.mpr fun other hother => by simpa using hall other hother
      exact ⟨entry :: rest, by rw [hnil]; rfl, hall⟩

/-- A reader at an epoch, beside a writer of later epochs: wherever its loads fall between the steps of the writer, it
yields what it would have yielded before the first of them, or nothing, when the list had just got a new block. -/
theorem readAdjList_isolated {r : ReadList} {writer : Nat → Writing} (hcap : capacity ≤ 2 ^ 35)
    (hdata : ∀ call ∈ calls, ExactData r.edgePropSize call) (hrun : runSegCalls capacity undirected calls = .ok t)
    (hfirst : Relation.ReflTransGen (WriterStep r) ⟨t.graph, .idle⟩ (writer 0))
    (hnext : ∀ i, Relation.ReflTransGen (WriterStep r) (writer i) (writer (i + 1))) :
    ∃ values, readAdjList t.graph r.v r.label r.dir r.stride r.epoch = .ok values ∧
      ((Loaded.readAdjList r.v r.label r.dir r.stride r.epoch).run (fun i => (writer i).graph) = .ok values ∨
        (Loaded.readAdjList r.v r.label r.dir r.stride r.epoch).run (fun i => (writer i).graph) = .ok [] ∧
          ∃ i, NewestEmpty (writer i).graph r.v r.label r.dir) := by
  obtain ⟨⟨own, log, hgraph, hsorted⟩, hcapacity⟩ := logged_of_run hcap hdata hrun
  obtain ⟨later, hsplit, hlater⟩ := split_upToEpoch (hsorted r.v r.label r.dir) r.epoch
  let watched : Watched :=
    { r with
      snapshot := upToEpoch r.epoch (log r.v r.label r.dir)
      seen := fun entry hentry => of_decide_eq_true (List.mem_filter.mp hentry).2 }
  obtain ⟨values, hvalues, hreads⟩ :=
    (readAdjList_spec hgraph r.v r.label r.dir (Nat.le_refl _) (fun _ => rfl) r.epoch).exists_ok
  have hsnapshot : values = snapshotValues watched := by
    refine reads_snapshot (r := watched) ?_ hreads
    refine ⟨later.map LogEntry.edge, ?_⟩
    show List.map _ _ ++ _ = _
    rw [← List.map_append, ← hsplit]
  have hinv : InvAt watched t.graph .idle := ⟨own, log, hgraph, by rw [hcapacity]; exact hcap, later, hsplit, hlater⟩
  have hholds : Guaranteed watched (∃ i, NewestEmpty (writer i).graph r.v r.label r.dir) ⟨t.graph, .idle⟩
      (Loaded.readAdjList r.v r.label r.dir r.stride r.epoch) := readAdjList_holds hinv
  have hstart : Observed watched (∃ i, NewestEmpty (writer i).graph r.v r.label r.dir) ⟨t.graph, .idle⟩ (writer 0) :=
    ⟨hfirst, fun h => ⟨0, h⟩⟩
  obtain ⟨-, hresult⟩ := hholds.run_spec hstart fun i => ⟨hnext i, fun h => ⟨i + 1, h⟩⟩
  refine ⟨values, hvalues, ?_⟩
  rw [hsnapshot]
  exact hresult

end run

theorem reaches_of_steps {r : ReadList} {n : Nat} {w w' : Writing} (hsteps : Writing.steps n w = .ok w')
    (hguard : ∀ k u, k < n → Writing.steps k w = .ok u → u.Replaces (r.epochTable u.graph) →
      r.epoch < (u.graph.epochBlocks (r.epochTable u.graph)).latestEpoch) :
    Relation.ReflTransGen (WriterStep r) w w' := by
  induction n generalizing w with
  | zero =>
    cases hsteps
    exact .refl
  | succ n ih =>
    obtain ⟨u, hnext, hrest⟩ := bind_eq_ok hsteps
    have htail : Relation.ReflTransGen (WriterStep r) u w' := by
      refine ih hrest fun k x hk hx => hguard (k + 1) x (Nat.succ_lt_succ hk) ?_
      show (w.next >>= fun w => Writing.steps k w) = _
      rw [hnext]
      exact hx
    by_cases hidle : w.pc = .idle
    · have hsame : w = u := by
        unfold Writing.next at hnext
        rw [hidle] at hnext
        exact Except.ok.inj hnext
      rw [hsame]
      exact htail
    · exact .head (.next w u hidle hnext (hguard 0 w (Nat.succ_pos n) rfl)) htail

/-- Two edges of epoch 1, and one of epoch 2, for which their block is copied. -/
def firstCalls : List SegCall := [.newVertex, .putEdge 1 0 0 .eout 10 [7], .putEdge 1 0 0 .eout 11 [8]]

def laterCall : PutCall := ⟨2, 0, 0, .eout, 12, [9]⟩

def atFullTable (w : Writing) : Bool :=
  match w.pc with
  | .epoch _ _ _ t => !(w.graph.epochBlocks t).hasSpace
  | _ => false

theorem readAdjList_isolated_later : ∃ t w, runSegCalls (2 ^ 23) [false] firstCalls = .ok t ∧
    Writing.steps 7 ⟨t.graph, .locate laterCall⟩ = .ok w ∧
    ∃ values, readAdjList t.graph 0 0 .eout 1 1 = .ok values ∧
      ((Loaded.readAdjList 0 0 .eout 1 1).run (fun i => if i = 0 then t.graph else w.graph) = .ok values ∨
        (Loaded.readAdjList 0 0 .eout 1 1).run (fun i => if i = 0 then t.graph else w.graph) = .ok [] ∧
          ∃ i, NewestEmpty (if i = 0 then t.graph else w.graph) 0 0 .eout) := by
  have hok : ((runSegCalls (2 ^ 23) [false] firstCalls).toOption.bind fun t =>
      (Writing.steps 7 ⟨t.graph, .locate laterCall⟩).toOption.map fun _ => t.graph.vertexId) = some 1 := by
    decide +kernel
  have hspace : ∀ k < 7, ((runSegCalls (2 ^ 23) [false] firstCalls).toOption.bind fun t =>
      (Writing.steps k ⟨t.graph, .locate laterCall⟩).toOption.map atFullTable) ≠ some true := by
    decide +kernel
  cases hrun : runSegCalls (2 ^ 23) [false] firstCalls with
  | error stop =>
    rw [hrun] at hok
    cases hok
  | ok t =>
    rw [hrun] at hok hspace
    change ((Writing.steps 7 ⟨t.graph, .locate laterCall⟩).toOption.map fun _ => t.graph.vertexId) = some 1 at hok
    cases hsteps : Writing.steps 7 ⟨t.graph, .locate laterCall⟩ with
    | error stop =>
      rw [hsteps] at hok
      cases hok
    | ok w =>
      rw [hsteps] at hok
      have hvertices : t.graph.vertexId = 1 := Option.some.inj hok
      have hreach : Relation.ReflTransGen (WriterStep ⟨0, 0, .eout, 1, fun _ => 1⟩) ⟨t.graph, .idle⟩ w := by
        refine .head (.call t.graph laterCall ?_ ⟨by decide, by decide, rfl⟩) (reaches_of_steps hsteps ?_)
        · rw [hvertices]
          decide
        · intro k u hk hu hreplaces
          refine absurd ?_ (hspace k hk)
          show (Writing.steps k ⟨t.graph, .locate laterCall⟩).toOption.map atFullTable = some true
          rw [hu]
          unfold Writing.Replaces at hreplaces
          unfold atFullTable
          cases hpc : u.pc with
          | epoch c segment edgeBlock epochTable =>
            rw [hpc] at hreplaces
            simp [Except.toOption, hpc, hreplaces.2.2]
          | _ =>
            rw [hpc] at hreplaces
            exact hreplaces.elim
      have hviews : ∀ i, (if i = 0 then t.graph else w.graph) =
          (if i = 0 then (⟨t.graph, .idle⟩ : Writing) else w).graph := by
        intro i
        by_cases hi : i = 0 <;> simp [hi]
      refine ⟨t, w, rfl, hsteps, ?_⟩
      simp only [hviews]
      refine @readAdjList_isolated (2 ^ 23) [false] firstCalls t ⟨0, 0, .eout, 1, fun _ => 1⟩
        (fun i => if i = 0 then ⟨t.graph, .idle⟩ else w) (by decide) (by simp [firstCalls, ExactData]) hrun .refl
        fun i => ?_
      by_cases hi : i = 0
      · simpa [hi] using hreach
      · simpa [hi] using Relation.ReflTransGen.refl

end Gart.Fragment
