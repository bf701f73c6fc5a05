import Gart.Seggraph.WatchedList
import Gart.Seggraph.WriterSteps

/-!
# The writer while a list is read

Every step of the writer keeps an invariant that says how far its call is, and changes the graph in one of the ways
of `Change`. All calls are of a later epoch than the one that is read.
-/

namespace Gart.Seggraph
open Gart.ByteMemory Gart.Outcome SegGraph

/-- A call of a writer that is behind the epoch of the reader. -/
structure PutCall.Later (r : ReadList) (c : PutCall) : Prop where
  epoch : r.epoch < c.writeEpochId
  dst : c.dst < 2 ^ 64
  data : c.edgeData.length = r.edgePropSize c.label

def Writing.Replaces (w : Writing) (epochTable : Nat) : Prop :=
  match w.pc with
  | .epoch c _ _ t => t = epochTable ∧ c.writeEpochId > (w.graph.epochBlocks t).latestEpoch ∧
      (w.graph.epochBlocks t).hasSpace = false
  | _ => False

/-- The steps of the writer. The epoch table of the list that is read is replaced only when it has an entry of a later
epoch than the one of the reader. -/
inductive WriterStep (r : ReadList) : Writing → Writing → Prop
  | newVertex (g : SegGraph) : WriterStep r ⟨g, .idle⟩ ⟨g.newVertex, .idle⟩
  | call (g : SegGraph) (c : PutCall) : c.src < g.vertexId → c.Later r → WriterStep r ⟨g, .idle⟩ ⟨g, .locate c⟩
  | next (w w' : Writing) : w.pc ≠ .idle → w.next = .ok w' →
      (w.Replaces (r.epochTable w.graph) → r.epoch < (w.graph.epochBlocks (r.epochTable w.graph)).latestEpoch) →
      WriterStep r w w'

/-! ### The invariant -/

/-- The graph holds the lists `log`, and the watched list begins with the snapshot. -/
structure Ready (r : Watched) (g : SegGraph) (own : Nat → Option Owner) (log : Log) (hole : Nat → Nat → Dir → Prop) :
    Prop where
  graph : GraphInv (fun _ => True) r.edgePropSize g own log hole
  capacity : g.blockManager.capacity ≤ 2 ^ 35
  split : ∃ later, log r.v r.label r.dir = r.snapshot ++ later ∧ ∀ entry ∈ later, r.epoch < entry.epoch

structure Opened (r : Watched) (g : SegGraph) (c : PutCall) (segment edgeBlock : Nat) (own : Nat → Option Owner)
    (log : Log) : Prop where
  ready : Ready r g own log (HoleAt (g.isEdgeUndirected c.label) c.src c.label c.dir)
  located : g.locateSegment c.segid c.label c.dir = segment
  segment_ne : segment ≠ 0
  room : HasRoom (g.segments segment) c.segidx edgeBlock

def AtEntry (r : Watched) (g : SegGraph) (c : PutCall) (segment edgeBlock : Nat) : Prop :=
  c.Later r.toReadList ∧ ∃ own log g' seen, Opened r g' c segment edgeBlock own log ∧
    SeenFrom c.writeEpochId (log c.src c.label c.dir) seen ∧
    TableReady g' g segment c.segidx seen (log c.src c.label c.dir)

def InvAt (r : Watched) (g : SegGraph) : PutAt → Prop
  | .idle => ∃ own log, Ready r g own log NoHole
  | .locate c => c.src < g.vertexId ∧ c.Later r.toReadList ∧ ∃ own log, Ready r g own log NoHole
  | .room c segment => c.src < g.vertexId ∧ c.Later r.toReadList ∧ g.locateSegment c.segid c.label c.dir = segment ∧
      segment ≠ 0 ∧ ∃ own log, Ready r g own log NoHole
  | .table c segment edgeBlock => c.Later r.toReadList ∧ ∃ own log, Opened r g c segment edgeBlock own log
  | .epoch c segment edgeBlock epochTable => c.Later r.toReadList ∧
      ∃ own log g', Opened r g' c segment edgeBlock own log ∧
      ((log c.src c.label c.dir = [] ∧ TableReady g' g segment c.segidx c.writeEpochId [] ∧
          (g.epochBlocks epochTable).latestEpoch = c.writeEpochId) ∨
        (log c.src c.label c.dir ≠ [] ∧ g = g' ∧ epochTable = (g.segments segment).epochTables c.segidx))
  | .epochEntry c segment edgeBlock epochTable => c.Later r.toReadList ∧ ∃ own log g' bm block,
      Opened r g' c segment edgeBlock own log ∧ log c.src c.label c.dir ≠ [] ∧
      g = withTable g' segment c.segidx epochTable bm block ∧
      Obtained g'.blockManager bm ((g'.segments segment).epochTables c.segidx) epochTable ∧
      EpochOk block (log c.src c.label c.dir) ∧ block.hasSpace = true ∧ block.latestEpoch < c.writeEpochId
  | .entry c segment edgeBlock => AtEntry r g c segment edgeBlock
  | .property c segment allocatedEdgeNum => ∃ g' edgeBlock, AtEntry r g' c segment edgeBlock ∧
      g = g'.setSegment segment ((g'.segments segment).appendEntry edgeBlock c.dst) ∧
      allocatedEdgeNum =
          (g'.segments segment).getAllocatedEdgeNum edgeBlock + (g'.segments segment).getNumEntries edgeBlock

section steps
variable {r : Watched} {g g' : SegGraph} {own : Nat → Option Owner} {log : Log} {hole : Nat → Nat → Dir → Prop}
  {c : PutCall} {s l i w segment edgeBlock : Nat} {d : Dir}

theorem PutCall.segidx_lt (c : PutCall) : c.segidx < vertexPerSeg := Nat.mod_lt _ (by decide)

theorem PutCall.vertex (c : PutCall) : vertexOf c.segid c.segidx = c.src := vertexOf_div_mod c.src

theorem ReadList.segidx_lt (r : ReadList) : r.segidx < vertexPerSeg := Nat.mod_lt _ (by decide)

theorem ReadList.vertex (r : ReadList) : vertexOf r.segid r.segidx = r.v := vertexOf_div_mod r.v

theorem GraphInv.watched_length (h : GraphInv (fun _ => True) r.edgePropSize g own log hole) :
    r.length g = (log r.v r.label r.dir).length := by
  by_cases hne : r.segment g = 0
  · have hnil := h.absent _ _ _ hne _ r.segidx_lt
    rw [r.vertex] at hnil
    rw [hnil]
    unfold ReadList.length
    simp [hne]
  · obtain ⟨C, hinv, hlists⟩ := h.holds _ _ _ hne
    have hedges := (hlists _ r.segidx_lt).edges
    dsimp only at hedges
    rw [r.vertex] at hedges
    rw [Watched.length_of_layout hne hinv, hedges, List.length_map]

theorem GraphInv.table_inj {stride : Nat → Nat} {tracked : Nat → Prop} {s' l' j : Nat} {d' : Dir}
    (h : GraphInv tracked stride g own log hole) (hne : g.locateSegment s l d ≠ 0) (hi : i < vertexPerSeg)
    (ht : (g.segments (g.locateSegment s l d)).epochTables i ≠ 0) (hne' : g.locateSegment s' l' d' ≠ 0)
    (hj : j < vertexPerSeg) (heq : (g.segments (g.locateSegment s' l' d')).epochTables j =
      (g.segments (g.locateSegment s l d)).epochTables i) :
    g.locateSegment s' l' d' = g.locateSegment s l d ∧ j = i := by
  have howner : ∀ s l d i, g.locateSegment s l d ≠ 0 → i < vertexPerSeg →
      (g.segments (g.locateSegment s l d)).epochTables i ≠ 0 →
      own ((g.segments (g.locateSegment s l d)).epochTables i) = some (.epochs s l (g.canonDir l d) i) := by
    intro s l d i hne hi ht
    obtain ⟨C, -, hlists⟩ := h.holds s l d hne
    have hlist := hlists i hi
    exact (hlist.table fun hnil => ht (hlist.noTable hnil)).2.1
  have hown := howner s l d i hne hi ht
  have hown' := howner s' l' d' j hne' hj (by rw [heq]; exact ht)
  rw [heq, hown] at hown'
  obtain ⟨rfl, rfl, hdir, rfl⟩ := Owner.epochs.inj (Option.some.inj hown')
  exact ⟨h.locate_same ((g.canonDir_eq_iff _ _ _).mp hdir) s, rfl⟩

/-! ### What the stages change -/

theorem initSegment_change {x : Nat × SegGraph} (h : GraphInv (fun _ => True) r.edgePropSize g own log hole)
    (hok : g.initSegment s l d = .ok x) (hlen : r.length g ≤ r.length x.2) : Change r g x.2 := by
  unfold initSegment at hok
  dsimp only at hok
  split at hok
  · cases hok
    exact .same
  · rename_i hnone
    have h0 : g.locateSegment s l d = 0 := Classical.not_not.mp hnone
    obtain ⟨⟨p', g1⟩, halloc, hok⟩ := bind_eq_ok hok
    obtain ⟨bm1, hg1, hspec⟩ := (allocBlock_spec h.bm initSegmentOrder).of_ok halloc
    dsimp only at hg1 hspec hok
    subst hg1
    split at hok
    · cases hok
    · rename_i hp'
      obtain ⟨ha, -⟩ := hspec.resolve_left hp'
      obtain ⟨g3, hlabels, hok⟩ := bind_eq_ok hok
      generalize hg2 : SegGraph.setSegment _ p' _ = g2 at hlabels
      have hbm : g2.blockManager.WellFormed := by
        rw [← hg2]
        exact ha.wellFormed
      obtain ⟨q, bm2, block, hg3, hob, hentries⟩ := (updateEdgeLabelBlock_spec hbm s l d p').of_ok hlabels
      subst hg2
      cases hok
      have hmoved : SegmentMoved r g s l d p' q bm1 bm2 block
          (Function.update g.segments p' ((g.segments p').fill p' initSegmentOrder s)) := by
        refine ⟨⟨own, log, hole, h⟩, ⟨ha, hob, hentries⟩, fun x hx _ => Function.update_of_ne hx _ _, fun i _ => ?_,
          fun hne => absurd h0 hne, fun hne => absurd h0 hne⟩
        rw [Function.update_self, if_pos h0]
        rfl
      have hresult : g3 = { relocated g s p' q
            (Function.update g.segments p' ((g.segments p').fill p' initSegmentOrder s) p') bm2 block [] with
          segments := Function.update g.segments p' ((g.segments p').fill p' initSegmentOrder s) } := by
        rw [hg3]
        simp only [relocated, SegGraph.setSegment, List.append_nil]
      dsimp only at hlen ⊢
      rw [hresult] at hlen ⊢
      exact .moved s l d p' q bm1 bm2 block [] _ hmoved hlen

/-- A merge leaves the old segment as it was, but for the slots that its last `alloc` counted. -/
theorem mergeIntoNewSegment_change {x : Nat × Nat × SegGraph} {p order : Nat}
    (h : GraphInv (fun _ => True) r.edgePropSize g own log NoHole) (hp : g.locateSegment s l d = p) (hp0 : p ≠ 0)
    (hok : (g.setSegment p (bumped (g.segments p) order)).mergeIntoNewSegment w s l d i p (r.edgePropSize l) = .ok x)
    (hlen : r.length g ≤ r.length x.2.2) : Change r g x.2.2 := by
  obtain ⟨C, hinv, hlists⟩ := h.holds s l d (by rw [hp]; exact hp0)
  rw [hp] at hinv hlists
  have hseg : (g.setSegment p (bumped (g.segments p) order)).segments p = bumped (g.segments p) order :=
    Function.update_self ..
  unfold mergeIntoNewSegment at hok
  dsimp only at hok
  rw [hseg] at hok
  obtain ⟨⟨p', g1⟩, halloc, hok⟩ := bind_eq_ok hok
  have hbm : (g.setSegment p (bumped (g.segments p) order)).blockManager.WellFormed := h.bm
  obtain ⟨bm1, hg1, hspec⟩ := (allocBlock_spec hbm _).of_ok halloc
  dsimp only at hg1 hspec hok
  subst hg1
  split at hok
  · cases hok
  · rename_i hp'
    obtain ⟨ha, haddr⟩ := hspec.resolve_left hp'
    obtain ⟨⟨new, edgeBlock⟩, hmerge, hok⟩ := bind_eq_ok hok
    obtain ⟨g3, hlabels, hok⟩ := bind_eq_ok hok
    obtain ⟨q, bm2, block, hg3, hob, hentries⟩ :=
      (updateEdgeLabelBlock_spec (by exact ha.wellFormed) s l d p').of_ok hlabels
    cases hok
    dsimp only at hlen ⊢
    have hcap := h.capacity
    have hfits := hinv.fits
    unfold Fits at hfits
    have hpow : 2 ^ ((g.segments p).order + 1) = 2 * 2 ^ (g.segments p).order := by
      rw [Nat.pow_succ, Nat.mul_comm]
    generalize hnew0 : ((g.setSegment p (bumped (g.segments p) order)).segments p').fill p'
      ((bumped (g.segments p) order).order + 1) s = new0 at hmerge
    have hinv0 : SegInv True (r.edgePropSize l) new0 fun _ => [] := by
      rw [← hnew0]
      refine segInv_fill ?_ ?_
      · simp only [bumped]
        omega
      · change p' + 2 ^ ((bumped (g.segments p) order).order + 1) ≤ g.blockManager.capacity at haddr
        omega
    have hnum : ∀ j, j < vertexPerSeg → (chainEdges (C j)).length < 2 ^ 32 := by
      intro j hj
      rw [(hlists j hj).edges, List.length_map]
      exact h.short _ _ _
    have hmerged : Ensures ((bumped (g.segments p) order).mergeSegment new0 (some i)
        ((bumped (g.segments p) order).regionPtrs i) (r.edgePropSize l) |>.mapError Stop.fault)
        (fun state => ∃ C', Merging True (r.edgePropSize l) (bumped (g.segments p) order) new0 (some i) C vertexPerSeg
          state C') fun _ => True := ((mergeSegment_spec (hinv.mergeSource order) hinv0 (by rw [← hnew0]; rfl)
      (by rw [← hnew0]; rfl) (Or.inr rfl) hnum (Nat.le_refl _) fun _ => rfl).mono (F := fun _ => True)
          (fun _ hq => hq) fun _ _ => trivial).mapError (g := Stop.fault)
      (E := fun _ => True)
    obtain ⟨C', hm⟩ := hmerged.of_ok hmerge
    have hpp' : p ≠ p' := by
      rintro rfl
      exact (h.owned _ _ (h.owner s l d (by rw [hp]; exact hp0))).2 (by rw [hp]; exact ha.was)
    have hmoved : SegmentMoved r g s l d p' q bm1 bm2 block
        (Function.update (Function.update g.segments p (bumped (g.segments p) order)) p' new) := by
      refine ⟨⟨own, log, NoHole, h⟩, ⟨ha, hob, hentries⟩, fun x hx hxp => ?_, fun j hj => ?_, fun _ => ?_, fun _ => ?_⟩
      · rw [hp] at hxp
        rw [Function.update_of_ne hx, Function.update_of_ne hxp]
      · rw [hp, if_neg hp0, Function.update_self, hm.tables j]
        by_cases hskip : MergeSkips (some i) C j
        · -- a list without edges has no table
          have hlist := hlists j hj
          have hzero := hskip.1
          rw [hlist.edges, List.length_map] at hzero
          rw [if_neg fun hh => hh.2 hskip]
          exact (hlist.noTable (List.eq_nil_of_length_eq_zero hzero)).symm
        · rw [if_pos ⟨hj, hskip⟩]
          rfl
      · rw [hp, Function.update_of_ne hpp', Function.update_self]
        exact ⟨rfl, rfl, rfl, rfl, rfl⟩
      · exact ⟨own, log, h⟩
    have hresult : g3 = { relocated g s p' q
          (Function.update (Function.update g.segments p (bumped (g.segments p) order)) p' new p') bm2 block
          [(p, (bumped (g.segments p) order).order, w)] with
        segments := Function.update (Function.update g.segments p (bumped (g.segments p) order)) p' new } := by
      rw [hg3]
      rfl
    rw [hresult] at hlen ⊢
    exact .moved s l d p' q bm1 bm2 block _ _ hmoved hlen

theorem roomForEdge_change {x : Nat × Nat × SegGraph} {p : Nat}
    (h : GraphInv (fun _ => True) r.edgePropSize g own log NoHole) (hp : g.locateSegment s l d = p) (hp0 : p ≠ 0)
    (hi : i < vertexPerSeg) (hshort : (log (vertexOf s i) l d).length + 1 < 2 ^ 32)
    (hok : g.roomForEdge w s l d i p (r.edgePropSize l) = .ok x) (hlen : r.length g ≤ r.length x.2.2) :
    Change r g x.2.2 := by
  obtain ⟨C, hinv, hlists⟩ := h.holds s l d (by rw [hp]; exact hp0)
  rw [hp] at hinv hlists
  have hnum : (chainEdges (C i)).length + 1 < 2 ^ 32 := by
    rw [(hlists i hi).edges, List.length_map]
    exact hshort
  have hnext : (if (g.segments p).regionPtrs i ≠ 0 then
      (g.segments p).getOrder ((g.segments p).regionPtrs i) + 1 else defaultInitOrder) = nextOrder (C i) :=
    hinv.order_eq_nextOrder
  unfold roomForEdge at hok
  dsimp only at hok
  rcases hinv.hasSpace_or_full hnum with ⟨-, hspace⟩ | ⟨hfull, hspace⟩
  · rw [if_pos hspace] at hok
    cases hok
    exact .same
  · rw [if_neg hspace, hnext, alloc_snd, alloc_fst] at hok
    by_cases hfits : Fits (r.edgePropSize l) ((g.segments p).allocatedEdgeNum + (3 + 2 ^ nextOrder (C i)))
        (g.segments p).order
    · rw [if_pos hfits, if_neg (Block.pointer_ne_zero _ _), hinv.region i] at hok
      obtain ⟨seg', hgrow, hok⟩ := bind_eq_ok hok
      obtain ⟨b, rest, hgrown, hinv', horder, hframe⟩ := (Ensures.mapError (E := fun _ => True) (g := Stop.fault)
        ((hinv.growBlock_framed hfull rfl hfits hnum (Nat.le_refl _) fun _ => rfl).mono (fun _ hq => hq)
          fun _ _ => trivial)).of_ok hgrow
      cases hok
      have hslot : b.slot = (g.segments p).allocatedEdgeNum := by
        have hpointer := hgrown.pointer
        unfold Block.pointer nextBlock at hpointer
        dsimp only at hpointer
        omega
      have hnonempty : ∀ n older, C i = n :: older → n.edges ≠ [] := by
        intro n older hC
        exact (hlists i hi).head (fun hf => hf) n older hC
      have hstep : ListStep (r.edgePropSize l) (g.segments p) C i r.snapshot.length
          (seg'.setRegionPtr i ((nextBlock (g.segments p) (nextOrder (C i))).pointer (g.segments p).head))
          (Function.update C i (b :: rest)) :=
        .grown (nextOrder (C i)) b rest seg'
          ⟨hslot, hframe, by rw [hgrown.pointer], hfits, hgrown.edges, hnonempty, rfl⟩
      have hset : (g.setSegment p (bumped (g.segments p) (nextOrder (C i)))).setSegment p
          (seg'.setRegionPtr i ((nextBlock (g.segments p) (nextOrder (C i))).pointer (g.segments p).head)) =
          g.setSegment p (seg'.setRegionPtr i
            ((nextBlock (g.segments p) (nextOrder (C i))).pointer (g.segments p).head)) := by
        simp only [SegGraph.setSegment, Function.update_idem]
      subst hp
      rw [hset]
      refine .list s l d i r.snapshot.length _ C _ hp0 hinv hinv' hstep fun hwatched => ⟨?_, fun _ => Nat.le_refl _⟩
      exact (h.locate_inj hp0 hwatched.symm).2.1.symm
    · rw [if_neg hfits, if_pos rfl] at hok
      exact mergeIntoNewSegment_change h hp hp0 hok hlen

theorem initEpochTable_change {x : Nat × SegGraph} {p : Nat} (hbm : g.blockManager.WellFormed)
    (hp : g.locateSegment s l d = p) (hp0 : p ≠ 0) (hi : i < vertexPerSeg) (hok : g.initEpochTable w p i = .ok x) :
    Change r g x.2 := by
  subst hp
  unfold initEpochTable at hok
  dsimp only at hok
  split at hok
  · cases hok
    exact .same
  · rename_i hnone
    have hold : (g.segments (g.locateSegment s l d)).epochTables i = 0 := Classical.not_not.mp hnone
    obtain ⟨⟨t, g1⟩, halloc, hok⟩ := bind_eq_ok hok
    obtain ⟨bm1, hg1, hspec⟩ := (allocBlock_spec hbm _).of_ok halloc
    dsimp only at hg1 hspec hok
    subst hg1
    split at hok
    · cases hok
    · rename_i ht
      obtain ⟨ha, -⟩ := hspec.resolve_left ht
      cases hok
      refine .table s l d i t bm1 _
          ⟨hp0, hi, Or.inr ha, fun heq => ?_, fun _ hne => absurd hold hne, fun _ hp hidx hne => ?_⟩
      · rw [hold] at heq
        exact absurd heq ht
      · unfold ReadList.epochTable at hne
        rw [← hp, ← hidx] at hne
        exact absurd hold hne

theorem roomForEpoch_change {x : Nat × SegGraph} {p : Nat}
    (h : GraphInv (fun _ => True) r.edgePropSize g own log hole) (hp : g.locateSegment s l d = p) (hp0 : p ≠ 0)
    (hi : i < vertexPerSeg) (ht0 : (g.segments p).epochTables i ≠ 0)
    (hok : g.roomForEpoch p i ((g.segments p).epochTables i) = .ok x)
    (hguard : (g.epochBlocks ((g.segments p).epochTables i)).hasSpace = false →
      (g.segments p).epochTables i = r.epochTable g → r.epoch < (g.epochBlocks (r.epochTable g)).latestEpoch) :
    Change r g x.2 := by
  subst hp
  unfold roomForEpoch at hok
  dsimp only at hok
  split at hok
  · cases hok
    exact .same
  · rename_i hfull
    obtain ⟨⟨t, g1⟩, halloc, hok⟩ := bind_eq_ok hok
    obtain ⟨bm1, hg1, hspec⟩ := (allocBlock_spec h.bm _).of_ok halloc
    dsimp only at hg1 hspec hok
    subst hg1
    split at hok
    · cases hok
    · rename_i ht
      obtain ⟨ha, -⟩ := hspec.resolve_left ht
      cases hok
      have hfresh : t ≠ (g.segments (g.locateSegment s l d)).epochTables i := by
        rintro rfl
        obtain ⟨C, -, hlists⟩ := h.holds s l d hp0
        have hlist := hlists i hi
        exact (h.owned _ _ (hlist.table fun hnil => ht0 (hlist.noTable hnil)).2.1).2 ha.was
      refine .table s l d i t bm1 _ ⟨hp0, hi, Or.inr ha, fun heq => absurd heq hfresh,
        fun _ _ s' l' d' j hne' hj heq => h.table_inj hp0 hi ht0 hne' hj heq, fun _ hp hidx _ => ?_⟩
      refine hguard (by simpa using hfull) ?_
      unfold ReadList.epochTable
      rw [← hp, ← hidx]

theorem setEpochBlock_change {t : Nat} {block : EpochBlock} {p : Nat} (hp : g.locateSegment s l d = p) (hp0 : p ≠ 0)
    (hi : i < vertexPerSeg) (ht : t = (g.segments p).epochTables i) (ht0 : t ≠ 0)
    (hgrows : (g.epochBlocks t).entries <:+ block.entries) : Change r g (g.setEpochBlock t block) := by
  subst hp
  have hself : (g.segments (g.locateSegment s l d)).setEpochTable i t = g.segments (g.locateSegment s l d) := by
    rw [ht]
    simp only [VegitoSegment.setEpochTable, Function.update_eq_self]
  have hset : g.setEpochBlock t block = withTable g (g.locateSegment s l d) i t g.blockManager block := by
    simp only [withTable, hself, Function.update_eq_self, SegGraph.setEpochBlock]
  rw [hset]
  exact .table s l d i t _ block ⟨hp0, hi, Or.inl ⟨ht, by rw [← ht]; exact ht0, rfl⟩, fun _ => hgrows,
    fun hne => absurd ht hne, fun hne => absurd ht hne⟩

/-! ### The entry and its data -/

/-- Two segments that agree with a third one outside some slots agree there with each other. -/
theorem Frame.across {tracked : Prop} {stride total s0 s1 : Nat} {seg seg' seg'' : VegitoSegment}
    (h : Frame tracked stride total s0 s1 seg seg') (h' : Frame tracked stride total s0 s1 seg seg'') :
    Frame tracked stride total s0 s1 seg' seg'' where
  order := h'.order.trans h.order.symm
  head := h'.head.trans h.head.symm
  segmentId := h'.segmentId.trans h.segmentId.symm
  allocated := h'.allocated.trans h.allocated.symm
  regions := h'.regions.trans h.regions.symm
  tables := h'.tables.trans h.tables.symm
  words x hx hlt := by
    rw [h.blockSize] at hlt
    rw [h'.words x hx hlt, h.words x hx hlt]
  props ht x h1 h2 hx := by
    rw [h.blockSize] at h1 h2 hx
    rw [h'.props ht x h1 h2 hx, h.props ht x h1 h2 hx]

def slotBytes (seg : VegitoSegment) (edgeBlock dst edgePropSize : Nat) : Bytes :=
  let seg' := seg.appendEntry edgeBlock dst
  let allocated := seg.getAllocatedEdgeNum edgeBlock + seg.getNumEntries edgeBlock
  read seg'.body (seg'.blockSize - (allocated + 1) * edgePropSize) edgePropSize

theorem insertEdge_slotBytes {seg seg' : VegitoSegment} {edgeBlock dst n : Nat}
    (h : seg.insertEdge edgeBlock dst (slotBytes seg edgeBlock dst n) = .ok seg') :
    seg' = seg.appendEntry edgeBlock dst := by
  unfold VegitoSegment.insertEdge at h
  dsimp only at h
  split at h
  · unfold VegitoSegment.appendProperty at h
    obtain ⟨addr, haddr, h⟩ := bind_eq_ok h
    cases h
    have hlen : (slotBytes seg edgeBlock dst n).length = n := read_length _ _ _
    unfold VegitoSegment.propertyAddr at haddr
    rw [hlen] at haddr
    split at haddr
    · cases haddr
      unfold slotBytes
      dsimp only
      rw [write_read_self]
    · cases haddr
  · cases h
    rfl

/-- The newest block at the entry, and the insertion of an edge with any data of the right size. -/
structure Insertable (r : Watched) (g : SegGraph) (c : PutCall) (segment edgeBlock : Nat) (C : Nat → List Block)
    (b : Block) (rest : List Block) : Prop where
  layout : SegInv True (r.edgePropSize c.label) (g.segments segment) C
  chain : C c.segidx = b :: rest
  located : g.locateSegment c.segid c.label c.dir = segment
  segment_ne : segment ≠ 0
  watched : segment = r.segment g → c.label = r.label ∧
    (c.segidx = r.segidx → r.snapshot.length ≤ (chainEdges rest).length + b.edges.length)
  insert : ∀ data : Bytes, data.length = r.edgePropSize c.label →
    ∃ seg', (g.segments segment).insertEdge edgeBlock c.dst data = .ok seg' ∧
      SegInv True (r.edgePropSize c.label) seg' (Function.update C c.segidx (b.push ⟨c.dst, data⟩ :: rest)) ∧
      Frame True (r.edgePropSize c.label) (g.segments segment).allocatedEdgeNum b.slot b.stop
          (g.segments segment) seg' ∧
      ∃ own log, Ready r (g.setSegment segment seg') own log NoHole

theorem AtEntry.insertable (h : AtEntry r g c segment edgeBlock) :
    ∃ C b rest, Insertable r g c segment edgeBlock C b rest := by
  obtain ⟨hlater, own, log, g', seen, hopen, hseen, hready⟩ := h
  have hgraph := hopen.ready.graph
  obtain ⟨C, hinv, hlists⟩ := hgraph.holds c.segid c.label c.dir (by rw [hopen.located]; exact hopen.segment_ne)
  rw [hopen.located] at hinv hlists
  obtain ⟨t, bm', block, hg, hob, hok⟩ := hready.result
  obtain ⟨b, rest, hC, hptr, hspace⟩ := hinv.of_hasRoom hopen.room
  have hseg : g.segments segment = (g'.segments segment).setEpochTable c.segidx t := by
    rw [hg]
    exact Function.update_self ..
  have hlocate : ∀ s l d, g.locateSegment s l d = g'.locateSegment s l d := by
    intro s l d
    rw [hg]
    rfl
  have hlist := (hlists _ c.segidx_lt).edges
  dsimp only at hlist
  rw [c.vertex] at hlist
  have hshort := hgraph.length_of_capacity hopen.ready.capacity c.src c.label c.dir
  have hlayout : SegInv True (r.edgePropSize c.label) (g.segments segment) C := by
    rw [hseg]
    exact hinv.setEpochTable _ _
  obtain ⟨later, hsplit, hlast⟩ := hopen.ready.split
  refine ⟨C, b, rest, hlayout, hC, ?_, hopen.segment_ne, fun hwatched => ?_, fun data hdata => ?_⟩
  · rw [hlocate]
    exact hopen.located
  · -- the list that is written to is the one that is read
    have hsame : r.segment g' = segment := by
      rw [hwatched]
      exact (hlocate _ _ _).symm
    obtain ⟨hsegid, hlabel, hdir⟩ := hgraph.locate_inj (s := c.segid) (l := c.label) (d := c.dir)
      (by rw [hopen.located]; exact hopen.segment_ne) (hsame.trans hopen.located.symm)
    refine ⟨hlabel.symm, fun hidx => ?_⟩
    have hv : r.v = c.src := by
      rw [← r.vertex, ← c.vertex, hsegid, hidx]
    have hlog : log r.v r.label r.dir = log c.src c.label c.dir := by
      rw [hv, hlabel]
      exact hgraph.log_same hdir c.src
    have hlength : (chainEdges (b :: rest)).length = (log c.src c.label c.dir).length := by
      rw [← hC, hlist, List.length_map]
    rw [← hlog, hsplit] at hlength
    simp only [chainEdges, List.length_append] at hlength
    omega
  · have hchain := hlayout.chain c.segidx
    rw [hC] at hchain
    have hin : b.stop ≤ (g.segments segment).allocatedEdgeNum :=
      hlayout.inside c.segidx b (by rw [hC]; exact List.mem_cons_self)
    have hnum : (chainEdges (C c.segidx)).length + 1 < 2 ^ 32 := by
      rw [hlist, List.length_map]
      exact hshort
    have hblock : b.edges.length + 1 < 2 ^ 32 := by
      rw [hC] at hnum
      simp only [chainEdges, List.length_append] at hnum
      omega
    have hpointer : edgeBlock = b.pointer (g.segments segment).head := by
      rw [hptr, hseg]
      rfl
    have hframe := insertEdge_spec (e := ⟨c.dst, data⟩) hchain.1 hchain.2.1 hspace hblock hlater.dst
      (Nat.le_of_eq hdata) (fun _ => hdata) (fun _ => rfl) hlayout.fits hin
    have hlayout' := hlayout.insertEdge (e := ⟨c.dst, data⟩) hC hspace hnum hlater.dst (Nat.le_of_eq hdata)
      (fun _ => hdata) fun _ => rfl
    have hgraphAt := hgraph
    have hreadyAt := hready
    have hshortAt := hshort
    rw [← c.vertex] at hgraphAt hreadyAt hshortAt
    have hinsert := insertEdge_graph hgraphAt hopen.located hopen.segment_ne c.segidx_lt hopen.room hreadyAt hlater.dst
      (Nat.le_of_eq hdata) (fun _ => hdata) hshortAt
    rw [hpointer] at hinsert ⊢
    obtain ⟨seg', hseg', own', hgraph'⟩ := hinsert.exists_ok
    refine ⟨seg', hseg', (hlayout'.of_ok hseg').1, (hframe.of_ok hseg').1, own', _, hgraph', ?_, ?_⟩
    · rw [hg]
      exact (Nat.le_of_eq hob.capacity).trans hopen.ready.capacity
    · rw [c.vertex]
      by_cases hon : r.v = c.src ∧ r.label = c.label ∧ SameList (g'.isEdgeUndirected c.label) c.dir r.dir
      · refine ⟨later ++ [⟨seen, ⟨c.dst, data⟩⟩], ?_, fun entry hentry => ?_⟩
        · unfold appendLog
          rw [if_pos hon, hsplit, List.append_assoc]
        · rcases List.mem_append.mp hentry with hentry | hentry
          · exact hlast entry hentry
          · rw [List.mem_singleton.mp hentry]
            exact Nat.lt_of_lt_of_le hlater.epoch hseen.le
      · rw [appendLog_of_not hon]
        exact ⟨later, hsplit, hlast⟩

theorem slotBytes_length (seg : VegitoSegment) (edgeBlock dst n : Nat) :
    (slotBytes seg edgeBlock dst n).length = n := read_length _ _ _

theorem entry_change (h : AtEntry r g c segment edgeBlock) :
    Change r g (g.setSegment segment ((g.segments segment).appendEntry edgeBlock c.dst)) := by
  obtain ⟨C, b, rest, hin⟩ := h.insertable
  obtain ⟨seg', hseg', hinv', hframe, -⟩ := hin.insert _ (slotBytes_length (g.segments segment) edgeBlock c.dst _)
  rw [insertEdge_slotBytes hseg'] at hinv' hframe
  have hstep : ListStep (r.edgePropSize c.label) (g.segments segment) C c.segidx
      ((chainEdges rest).length + b.edges.length) ((g.segments segment).appendEntry edgeBlock c.dst) _ :=
    .written b.slot b.order b.edges []
      [⟨c.dst, slotBytes (g.segments segment) edgeBlock c.dst (r.edgePropSize c.label)⟩] rest
      ⟨by rw [hin.chain, List.append_nil], hframe, by simp, rfl⟩ (Nat.le_refl _)
  have hlocated := hin.located
  subst hlocated
  exact .list c.segid c.label c.dir c.segidx _ _ C _ hin.segment_ne hin.layout hinv' hstep hin.watched

theorem property_change {n : Nat} {seg' : VegitoSegment} (h : AtEntry r g c segment edgeBlock)
    (hn : n = (g.segments segment).getAllocatedEdgeNum edgeBlock + (g.segments segment).getNumEntries edgeBlock)
    (hdata : c.edgeData.length > 0)
    (hok : ((g.segments segment).appendEntry edgeBlock c.dst).appendProperty n c.edgeData = .ok seg') :
    Change r (g.setSegment segment ((g.segments segment).appendEntry edgeBlock c.dst)) (g.setSegment segment seg') ∧
      ∃ own log, Ready r (g.setSegment segment seg') own log NoHole := by
  obtain ⟨C, b, rest, hin⟩ := h.insertable
  obtain ⟨segA, hsegA, hinvA, hframeA, -⟩ := hin.insert _ (slotBytes_length (g.segments segment) edgeBlock c.dst _)
  obtain ⟨segB, hsegB, hinvB, hframeB, hready⟩ := hin.insert _ h.1.data
  rw [insertEdge_slotBytes hsegA] at hinvA hframeA
  have hsame : segB = seg' := by
    unfold VegitoSegment.insertEdge at hsegB
    rw [if_pos hdata, ← hn, hok] at hsegB
    exact (Except.ok.inj hsegB).symm
  subst hsame
  refine ⟨?_, hready⟩
  generalize hshown : (⟨c.dst, slotBytes (g.segments segment) edgeBlock c.dst (r.edgePropSize c.label)⟩ : Edge) = shown
    at hinvA
  have hstep : ListStep (r.edgePropSize c.label) ((g.segments segment).appendEntry edgeBlock c.dst)
      (Function.update C c.segidx (b.push shown :: rest)) c.segidx ((chainEdges rest).length + b.edges.length) segB
      (Function.update C c.segidx (b.push ⟨c.dst, c.edgeData⟩ :: rest)) :=
    .written b.slot b.order b.edges [shown] [⟨c.dst, c.edgeData⟩] rest
      ⟨Function.update_self .., by rw [hframeA.allocated]; exact hframeA.across hframeB, Nat.le_refl _,
        (Function.update_idem ..).symm⟩ (Nat.le_refl _)
  have hlocated := hin.located
  subst hlocated
  have hself : (g.setSegment (g.locateSegment c.segid c.label c.dir)
      ((g.segments (g.locateSegment c.segid c.label c.dir)).appendEntry edgeBlock c.dst)).segments
        (g.locateSegment c.segid c.label c.dir) =
      (g.segments (g.locateSegment c.segid c.label c.dir)).appendEntry edgeBlock c.dst := Function.update_self ..
  have hchange : Change r (g.setSegment (g.locateSegment c.segid c.label c.dir)
      ((g.segments (g.locateSegment c.segid c.label c.dir)).appendEntry edgeBlock c.dst)) _ :=
    .list c.segid c.label c.dir c.segidx _ segB _ _ hin.segment_ne (by exact hself.symm ▸ hinvA) hinvB
      (by exact hself.symm ▸ hstep) hin.watched
  have hset : (g.setSegment (g.locateSegment c.segid c.label c.dir)
      ((g.segments (g.locateSegment c.segid c.label c.dir)).appendEntry edgeBlock c.dst)).setSegment
        (g.locateSegment c.segid c.label c.dir) segB = g.setSegment (g.locateSegment c.segid c.label c.dir) segB := by
    simp only [SegGraph.setSegment, Function.update_idem]
  rw [← hset]
  exact hchange

/-! ### The steps of a call -/

theorem PutCall.segid_born (c : PutCall) (hsrc : c.src < g.vertexId) : c.segid * vertexPerSeg < g.vertexId :=
  Nat.lt_of_le_of_lt (Nat.div_mul_le_self c.src vertexPerSeg) hsrc

theorem locate_step {w' : Writing} (h : InvAt r g (.locate c)) (hnext : Writing.next ⟨g, .locate c⟩ = .ok w') :
    InvAt r w'.graph w'.pc ∧ Change r g w'.graph := by
  obtain ⟨hsrc, hlater, own, log, hready⟩ := h
  obtain ⟨⟨segment, g1⟩, hinit, hok⟩ := bind_eq_ok hnext
  cases hok
  have hgap : ∀ g : SegGraph, NoGap (r.edgePropSize c.label) c.edgeData.length
      (g.segments (g.locateSegment c.segid c.label c.dir)) c.segidx := fun g => by
    rw [hlater.data]
    exact fun hfits => hfits
  obtain ⟨⟨own', hgraph'⟩, hsame, hlocated, hne, -, -⟩ := (initSegment_spec hready.graph
    (c.segid_born hsrc) (Or.inr hlater.data) fun _ => hgap g).of_ok hinit
  dsimp only at hgraph' hsame hlocated hne ⊢
  have hlen : r.length g ≤ r.length g1 := by rw [hready.graph.watched_length, hgraph'.watched_length]
  refine ⟨⟨by rw [hsame.vertexId]; exact hsrc, hlater, hlocated, hne, own', log, hgraph', ?_, hready.split⟩,
    initSegment_change hready.graph hinit hlen⟩
  rw [hsame.capacity]
  exact hready.capacity

theorem room_step {w' : Writing} (h : InvAt r g (.room c segment))
    (hnext : Writing.next ⟨g, .room c segment⟩ = .ok w') :
    InvAt r w'.graph w'.pc ∧ Change r g w'.graph := by
  obtain ⟨hsrc, hlater, hlocated, hne, own, log, hready⟩ := h
  obtain ⟨⟨segment', edgeBlock, g1⟩, hroom, hok⟩ := bind_eq_ok hnext
  cases hok
  rw [hlater.data] at hroom
  have hshort : (log (vertexOf c.segid c.segidx) c.label c.dir).length + 1 < 2 ^ 32 :=
    hready.graph.length_of_capacity hready.capacity _ _ _
  obtain ⟨⟨own', hgraph'⟩, hsame, hlocated', hne', hhas, -⟩ := (roomForEdge_spec hready.graph hlocated hne c.segidx_lt
    (c.segid_born hsrc) (Or.inr rfl) (Nat.le_refl _) (fun _ => rfl) (fun hfits => hfits) hshort).of_ok hroom
  dsimp only at hgraph' hsame hlocated' hne' hhas ⊢
  have hlen : r.length g ≤ r.length g1 := by rw [hready.graph.watched_length, hgraph'.watched_length]
  refine ⟨⟨hlater, own', log, ⟨?_, ?_, hready.split⟩, hlocated', hne', hhas⟩,
    roomForEdge_change hready.graph hlocated hne c.segidx_lt hshort hroom hlen⟩
  · rw [hsame.isEdgeUndirected, ← c.vertex]
    exact hgraph'
  · rw [hsame.capacity]
    exact hready.capacity

theorem Opened.list {own : Nat → Option Owner} {log : Log} (h : Opened r g c segment edgeBlock own log) :
    (log c.src c.label c.dir = [] → (g.segments segment).epochTables c.segidx = 0) ∧
    (log c.src c.label c.dir ≠ [] → (g.segments segment).epochTables c.segidx ≠ 0 ∧
      EpochOk (g.epochBlocks ((g.segments segment).epochTables c.segidx)) (log c.src c.label c.dir)) ∧
    (g.segments segment).getPrevNumEntries edgeBlock + (g.segments segment).getNumEntries edgeBlock =
      (log c.src c.label c.dir).length := by
  obtain ⟨C, hinv, hlists⟩ := h.ready.graph.holds c.segid c.label c.dir (by rw [h.located]; exact h.segment_ne)
  rw [h.located] at hinv hlists
  have hlist := hlists _ c.segidx_lt
  dsimp only at hlist
  rw [c.vertex] at hlist
  refine ⟨hlist.noTable, fun hne => ⟨(hlist.table hne).1, (hlist.table hne).2.2⟩, ?_⟩
  rw [hinv.end_of_hasRoom h.room, hlist.edges, List.length_map]

theorem table_step {w' : Writing} (h : InvAt r g (.table c segment edgeBlock))
    (hnext : Writing.next ⟨g, .table c segment edgeBlock⟩ = .ok w') :
    InvAt r w'.graph w'.pc ∧ Change r g w'.graph := by
  obtain ⟨hlater, own, log, hopen⟩ := h
  obtain ⟨⟨t, g1⟩, htable, hok⟩ := bind_eq_ok hnext
  cases hok
  obtain ⟨hnone, hsome, -⟩ := hopen.list
  refine ⟨⟨hlater, own, log, g, hopen, ?_⟩, initEpochTable_change hopen.ready.graph.bm hopen.located hopen.segment_ne
    c.segidx_lt htable⟩
  rcases (initEpochTable_spec hopen.ready.graph.bm hnone fun hne => (hsome hne).1).of_ok htable with
    ⟨hnil, hready, hlatest⟩ | ⟨hne, heq⟩
  · exact Or.inl ⟨hnil, hready, hlatest⟩
  · simp only [Prod.mk.injEq] at heq
    obtain ⟨rfl, rfl⟩ := heq
    exact Or.inr ⟨hne, rfl, rfl⟩

theorem epoch_step {w' : Writing} {t : Nat} (h : InvAt r g (.epoch c segment edgeBlock t))
    (hnext : Writing.next ⟨g, .epoch c segment edgeBlock t⟩ = .ok w')
    (hguard : Writing.Replaces ⟨g, .epoch c segment edgeBlock t⟩ (r.epochTable g) →
      r.epoch < (g.epochBlocks (r.epochTable g)).latestEpoch) :
    InvAt r w'.graph w'.pc ∧ Change r g w'.graph := by
  obtain ⟨hlater, own, log, g', hopen, hcase⟩ := h
  unfold Writing.next at hnext
  dsimp only at hnext
  rcases hcase with ⟨hnil, hready, hlatest⟩ | ⟨hne, rfl, rfl⟩
  · rw [if_neg (by omega)] at hnext
    cases hnext
    refine ⟨⟨hlater, own, log, g', c.writeEpochId, hopen, ⟨Nat.le_refl _, ?_, Or.inl rfl⟩, ?_⟩, .same⟩
    · rw [hnil]
      simp
    · rw [hnil]
      exact hready
  · obtain ⟨-, hsome, hend⟩ := hopen.list
    obtain ⟨ht0, hepochs⟩ := hsome hne
    split at hnext
    · rename_i hnew
      obtain ⟨⟨t, g1⟩, hroom, hok⟩ := bind_eq_ok hnext
      cases hok
      have hchange : Change r g g1 := roomForEpoch_change hopen.ready.graph hopen.located hopen.segment_ne c.segidx_lt
        ht0 hroom fun hfull heq => hguard ⟨heq, hnew, hfull⟩
      refine ⟨⟨hlater, own, log, g, ?_⟩, hchange⟩
      unfold roomForEpoch at hroom
      dsimp only at hroom
      split at hroom
      · rename_i hspace
        cases hroom
        refine ⟨g.blockManager, _, hopen, hne, ?_, Or.inl ⟨rfl, ht0, rfl⟩, hepochs, hspace, hnew⟩
        simp only [withTable, VegitoSegment.setEpochTable, Function.update_eq_self]
      · rw [grownTable_eq hepochs.size] at hroom
        obtain ⟨⟨t', g2⟩, halloc, hroom⟩ := bind_eq_ok hroom
        obtain ⟨bm1, hg2, hspec⟩ := (allocBlock_spec hopen.ready.graph.bm _).of_ok halloc
        dsimp only at hg2 hspec hroom
        subst hg2
        split at hroom
        · cases hroom
        · rename_i ht'
          obtain ⟨ha, -⟩ := hspec.resolve_left ht'
          cases hroom
          exact ⟨bm1, _, hopen, hne, rfl, Or.inr ha, hepochs.grown, grownTable_hasSpace hepochs.size, hnew⟩
    · rename_i hold
      cases hnext
      obtain ⟨seen, hseen⟩ := exists_seenFrom c.writeEpochId (log c.src c.label c.dir)
      have hready := (openEpoch_spec (w := c.writeEpochId) hopen.ready.graph.bm rfl ht0 hepochs hne hseen hend).of_ok
        (by unfold openEpoch; rw [if_neg hold])
      exact ⟨⟨hlater, own, log, g, seen, hopen, hseen, hready⟩, .same⟩

theorem epochEntry_step {w' : Writing} {t : Nat} (h : InvAt r g (.epochEntry c segment edgeBlock t))
    (hnext : Writing.next ⟨g, .epochEntry c segment edgeBlock t⟩ = .ok w') :
    InvAt r w'.graph w'.pc ∧ Change r g w'.graph := by
  obtain ⟨hlater, own, log, g', bm, block, hopen, hne, hg, hob, hepochs, hspace, hnew⟩ := h
  cases hnext
  have hblock : g.epochBlocks t = block := by
    rw [hg]
    exact Function.update_self ..
  have hseg : g.segments segment = (g'.segments segment).setEpochTable c.segidx t := by
    rw [hg]
    exact Function.update_self ..
  obtain ⟨-, -, hend⟩ := hopen.list
  have hentry : Writing.newEpoch g c segment edgeBlock = ⟨c.writeEpochId, (log c.src c.label c.dir).length⟩ := by
    unfold Writing.newEpoch
    rw [hseg, ← hend]
    rfl
  have ht0 : t ≠ 0 := by
    rcases hob with ⟨rfl, hne, -⟩ | ha
    · exact hne
    · exact Nat.pos_iff_ne_zero.mp ha.pos
  have hseen : SeenFrom c.writeEpochId (log c.src c.label c.dir) c.writeEpochId := by
    refine ⟨Nat.le_refl _, fun entry hmem => ?_, Or.inl rfl⟩
    have hbound := hepochs.bounded entry hmem
    omega
  refine ⟨⟨hlater, own, log, g', c.writeEpochId, hopen, hseen, ⟨t, bm, _, ?_, hob,
    fun edge => hepochs.later_epoch hne hnew hspace edge⟩⟩, ?_⟩
  · rw [hblock, hentry, hg]
    simp only [withTable, SegGraph.setEpochBlock, Function.update_idem]
  · refine setEpochBlock_change (s := c.segid) (l := c.label) (d := c.dir) (i := c.segidx) (p := segment) ?_
      hopen.segment_ne c.segidx_lt ?_ ht0 ?_
    · rw [hg]
      exact hopen.located
    · rw [hseg]
      show t = Function.update (g'.segments segment).epochTables c.segidx t c.segidx
      rw [Function.update_self]
    · unfold EpochBlock.append
      split
      · exact List.suffix_cons _ _
      · exact List.suffix_rfl

theorem WriterStep.inv {w w' : Writing} (hstep : WriterStep r.toReadList w w') (h : InvAt r w.graph w.pc) :
    InvAt r w'.graph w'.pc ∧ Change r w.graph w'.graph := by
  cases hstep with
  | newVertex g =>
    obtain ⟨own, log, hready⟩ := h
    obtain ⟨segId, heq, -, -⟩ := newVertex_eq hready.graph
    have hinv := newVertex_inv hready.graph
    dsimp only
    rw [heq] at hinv ⊢
    exact ⟨⟨own, log, hinv, hready.capacity, hready.split⟩, .vertex _ _⟩
  | call g c hsrc hlater => exact ⟨⟨hsrc, hlater, h⟩, .same⟩
  | next _ _ hpc hnext hguard =>
    obtain ⟨g, pc⟩ := w
    cases pc with
    | idle => exact absurd rfl hpc
    | locate c => exact locate_step h hnext
    | room c segment => exact room_step h hnext
    | table c segment edgeBlock => exact table_step h hnext
    | epoch c segment edgeBlock t => exact epoch_step h hnext hguard
    | epochEntry c segment edgeBlock t => exact epochEntry_step h hnext
    | entry c segment edgeBlock =>
      cases hnext
      exact ⟨⟨g, edgeBlock, h, rfl, rfl⟩, entry_change h⟩
    | property c segment n =>
      obtain ⟨g', edgeBlock, hentry, rfl, hn⟩ := h
      unfold Writing.next at hnext
      dsimp only at hnext
      have hself : (g'.setSegment segment ((g'.segments segment).appendEntry edgeBlock c.dst)).segments segment =
          (g'.segments segment).appendEntry edgeBlock c.dst := Function.update_self ..
      have hset : ∀ seg, (g'.setSegment segment ((g'.segments segment).appendEntry edgeBlock c.dst)).setSegment segment
          seg = g'.setSegment segment seg := by
        intro seg
        simp only [SegGraph.setSegment, Function.update_idem]
      split at hnext
      · rename_i hdata
        obtain ⟨seg, hwrite, hok⟩ := bind_eq_ok hnext
        cases hok
        rw [hself] at hwrite
        dsimp only
        rw [hset]
        cases hproperty : ((g'.segments segment).appendEntry edgeBlock c.dst).appendProperty n c.edgeData with
        | error fault =>
          rw [hproperty] at hwrite
          cases hwrite
        | ok seg' =>
          rw [hproperty] at hwrite
          cases hwrite
          exact (property_change hentry hn hdata hproperty).symm
      · cases hnext
        obtain ⟨C, b, rest, hin⟩ := hentry.insertable
        obtain ⟨seg', hseg', -, -, hready⟩ :=
          hin.insert _ (slotBytes_length (g'.segments segment) edgeBlock c.dst _)
        rw [insertEdge_slotBytes hseg'] at hready
        exact ⟨hready, .same⟩

end steps

end Gart.Seggraph
