import Gart.Fragment.ReadSpec
import Gart.Seggraph.WriterRun

/-!
# What a reader holds while the writer goes on

A reader goes from the labels to the segment, from there to the epoch table and to the newest edge block, and each
pointer that it has loaded may be out of date a moment later. These predicates say what such a pointer is still good
for, and that no step of the writer takes that away.
-/

namespace Gart.Fragment
open Gart.ByteMemory Gart.Outcome Gart.Seggraph SegGraph

variable {r : Watched} {g g' : SegGraph}

/-! ### The list in one state -/

/-- Where the epoch of the reader ends, by a table of a list of `n` entries. -/
structure Cuts (r : Watched) (block : EpochBlock) (n : Nat) : Prop where
  nothing : EdgeIterator.findReadEnd r.epoch none block.entries = .nothing → r.snapshot = []
  upTo : ∀ k, EdgeIterator.findReadEnd r.epoch none block.entries = .upTo k → k = r.snapshot.length ∧ 0 < k
  whole : EdgeIterator.findReadEnd r.epoch none block.entries = .whole → n = r.snapshot.length
  later : r.epoch < block.latestEpoch → EdgeIterator.findReadEnd r.epoch none block.entries ≠ .whole

structure Tabled (r : Watched) (g : SegGraph) (t : Nat) : Prop where
  none : t = 0 → r.snapshot = []
  some : t ≠ 0 → ¬ g.blockManager.Available t ∧ Cuts r (g.epochBlocks t) (r.length g)

structure Shown (r : Watched) (g : SegGraph) (C : Nat → List Block) : Prop where
  layout : SegInv True r.stride (g.segments (r.segment g)) C
  head : (g.segments (r.segment g)).head = r.segment g
  inUse : ¬ g.blockManager.Available (r.segment g)
  edges : r.edges <+: chainEdges (C r.segidx)
  table : Tabled r g (r.epochTable g)

structure Shows (r : Watched) (g : SegGraph) : Prop where
  labels : g.edgeLabelPtrs r.segid ≠ 0 → ¬ g.blockManager.Available (g.edgeLabelPtrs r.segid)
  absent : r.segment g = 0 → r.snapshot = []
  located : r.segment g ≠ 0 → ∃ C, Shown r g C

theorem upToEpoch_split {later : List LogEntry} (hlater : ∀ entry ∈ later, r.epoch < entry.epoch) :
    upToEpoch r.epoch (r.snapshot ++ later) = r.snapshot := by
  unfold upToEpoch
  rw [List.filter_append, List.filter_eq_self.mpr fun entry hentry => decide_eq_true (r.seen entry hentry),
    List.filter_eq_nil_iff.mpr fun entry hentry => by have hlt := hlater entry hentry; simpa using hlt,
    List.append_nil]

theorem cuts_of_epochOk {block : EpochBlock} {log later : List LogEntry} {n : Nat} (h : EpochOk block log)
    (hlog : log = r.snapshot ++ later) (hlater : ∀ entry ∈ later, r.epoch < entry.epoch)
    (hn : log.length = r.snapshot.length → n = r.snapshot.length) : Cuts r block n := by
  have hcount := h.count r.epoch
  rw [hlog, upToEpoch_split hlater, ← hlog] at hcount
  have hspec := findReadEnd_spec r.epoch log.length none block.entries (by simp)
  refine ⟨fun hend => ?_, fun k hend => ?_, fun hend => ?_, fun hlt hend => ?_⟩
  · rw [hend] at hspec
    exact List.eq_nil_of_length_eq_zero (hcount.symm.trans hspec)
  · rw [hend] at hspec
    refine ⟨hspec.1.symm.trans hcount, ?_⟩
    rcases hspec.2 with ⟨entry, heq, -⟩ | ⟨entry, hmem, rfl⟩
    · cases heq
    · exact h.offsets entry hmem
  · rw [hend] at hspec
    exact hn (hspec.2.symm.trans hcount)
  · obtain ⟨offset, older, hentries⟩ := h.latest
    rw [hentries] at hend
    simp only [EdgeIterator.findReadEnd] at hend
    rw [if_neg (by omega)] at hend
    have hspec' := findReadEnd_spec r.epoch offset (some ⟨block.latestEpoch, offset⟩) older (by simp)
    rw [hend] at hspec'
    exact absurd hspec'.1 (by simp)

theorem shows_of_ready {own : Nat → Option Owner} {log : Log} {hole : Nat → Nat → Dir → Prop}
    (h : Ready r g own log hole) : Shows r g := by
  obtain ⟨later, hsplit, hlater⟩ := h.split
  refine ⟨fun hne => (h.graph.owned _ _ (h.graph.labels _ hne)).2, fun h0 => ?_, fun hne => ?_⟩
  · have hnil := h.graph.absent _ _ _ h0 _ r.segidx_lt
    rw [r.vertex, hsplit] at hnil
    exact (List.append_eq_nil_iff.mp hnil).1
  · obtain ⟨C, hinv, hlists⟩ := h.graph.holds _ _ _ hne
    have hlist := hlists _ r.segidx_lt
    dsimp only at hlist
    rw [r.vertex] at hlist
    refine ⟨C, hinv, h.graph.head _ _ _ hne, (h.graph.owned _ _ (h.graph.owner _ _ _ hne)).2, ?_,
      fun h0 => ?_, fun ht => ?_⟩
    · rw [hlist.edges, hsplit, List.map_append]
      exact List.prefix_append _ _
    · have hnil : log r.v r.label r.dir = [] := Classical.byContradiction fun hne => (hlist.table hne).1 h0
      rw [hsplit] at hnil
      exact (List.append_eq_nil_iff.mp hnil).1
    · obtain ⟨-, hown, hepochs⟩ := hlist.table fun hnil => ht (hlist.noTable hnil)
      refine ⟨(h.graph.owned _ _ hown).2, cuts_of_epochOk hepochs hsplit hlater fun hlen => ?_⟩
      rw [h.graph.watched_length]
      exact hlen

section opened
variable {own : Nat → Option Owner} {log : Log} {c : PutCall} {segment edgeBlock t : Nat} {bm : BlockManager}
  {block : EpochBlock}

theorem opened_table_ne (h : Opened r g c segment edgeBlock own log)
    (hob : Obtained g.blockManager bm ((g.segments segment).epochTables c.segidx) t) (hne : r.segment g ≠ 0)
    (huse : ¬ g.blockManager.Available (r.epochTable g))
    (hother : ¬ (r.segment g = segment ∧ r.segidx = c.segidx)) : r.epochTable g ≠ t := by
  intro heq
  rcases hob with ⟨rfl, hold, -⟩ | ha
  · have hlocated := h.located
    subst hlocated
    exact hother (h.ready.graph.table_inj h.segment_ne c.segidx_lt hold hne r.segidx_lt heq)
  · rw [heq] at huse
    exact huse ha.was

theorem shows_of_opened {later : List LogEntry} (h : Opened r g c segment edgeBlock own log)
    (hob : Obtained g.blockManager bm ((g.segments segment).epochTables c.segidx) t)
    (hepochs : EpochOk block (log c.src c.label c.dir ++ later)) (hlater : ∀ entry ∈ later, r.epoch < entry.epoch) :
    Shows r (withTable g segment c.segidx t bm block) := by
  have hshows := shows_of_ready h.ready
  have hbm : ∀ x, ¬ g.blockManager.Available x → ¬ bm.Available x := fun x hx hav => hx (obtained_shrink hob hav)
  refine ⟨fun hne => hbm _ (hshows.labels hne), hshows.absent, fun hne => ?_⟩
  change r.segment g ≠ 0 at hne
  obtain ⟨C, hshown⟩ := hshows.located hne
  have hsegment : r.segment (withTable g segment c.segidx t bm block) = r.segment g := rfl
  have hlen : r.length (withTable g segment c.segidx t bm block) = r.length g := by
    refine Watched.length_congr rfl ?_ ?_ ?_
    all_goals
      unfold withTable
      dsimp only
      by_cases hp : r.segment g = segment
      · rw [hp, Function.update_self]
        rfl
      · rw [Function.update_of_ne hp]
  by_cases hp : r.segment g = segment
  · have hseg : (withTable g segment c.segidx t bm block).segments (r.segment g) =
        (g.segments (r.segment g)).setEpochTable c.segidx t := by
      rw [hp]
      exact Function.update_self ..
    refine ⟨C, ?_, ?_, hbm _ hshown.inUse, hshown.edges, ?_⟩
    · rw [hsegment, hseg]
      exact hshown.layout.setEpochTable _ _
    · rw [hsegment, hseg]
      exact hshown.head
    · have htable : r.epochTable (withTable g segment c.segidx t bm block) =
          Function.update (g.segments (r.segment g)).epochTables c.segidx t r.segidx := by
        unfold ReadList.epochTable
        rw [hsegment, hseg]
        rfl
      by_cases hidx : r.segidx = c.segidx
      · rw [hidx, Function.update_self] at htable
        rw [htable]
        have huse : t ≠ 0 ∧ ¬ bm.Available t := by
          rcases hob with ⟨rfl, hold, rfl⟩ | ha
          · have hold' : r.epochTable g = (g.segments segment).epochTables c.segidx := by
              unfold ReadList.epochTable
              rw [hp, hidx]
            rw [← hold'] at hold ⊢
            exact ⟨hold, (hshown.table.some hold).1⟩
          · exact ⟨Nat.pos_iff_ne_zero.mp ha.pos, ha.now⟩
        refine ⟨fun h0 => absurd h0 huse.1, fun _ => ⟨huse.2, ?_⟩⟩
        rw [hlen]
        have hlocated : g.locateSegment c.segid c.label c.dir = segment := h.located
        obtain ⟨hsegid, hlabel, hdir⟩ := h.ready.graph.locate_inj (s := c.segid) (l := c.label) (d := c.dir)
          (by rw [hlocated]; exact h.segment_ne) (hp.trans hlocated.symm)
        have hv : r.v = c.src := by
          rw [← r.vertex, ← c.vertex, hsegid, hidx]
        have hlog : log r.v r.label r.dir = log c.src c.label c.dir := by
          rw [hv, hlabel]
          exact h.ready.graph.log_same hdir c.src
        obtain ⟨more, hsplit, hmore⟩ := h.ready.split
        have hblock : (withTable g segment c.segidx t bm block).epochBlocks t = block := Function.update_self ..
        rw [hblock]
        have hfront : log c.src c.label c.dir ++ later = r.snapshot ++ (more ++ later) := by
          rw [← hlog, hsplit, List.append_assoc]
        refine cuts_of_epochOk hepochs hfront (fun entry hentry => ?_) fun hfull => ?_
        · exact (List.mem_append.mp hentry).elim (hmore entry) (hlater entry)
        · rw [← hlog, List.length_append] at hfull
          have hle : r.snapshot.length ≤ (log r.v r.label r.dir).length := by
            rw [hsplit, List.length_append]
            omega
          rw [h.ready.graph.watched_length]
          omega
      · rw [Function.update_of_ne hidx] at htable
        change r.epochTable _ = r.epochTable g at htable
        rw [htable]
        refine ⟨hshown.table.none, fun ht0 => ⟨hbm _ (hshown.table.some ht0).1, ?_⟩⟩
        rw [hlen]
        have hother := opened_table_ne h hob hne (hshown.table.some ht0).1 fun hh => hidx hh.2
        have hblock : (withTable g segment c.segidx t bm block).epochBlocks (r.epochTable g) =
            g.epochBlocks (r.epochTable g) := Function.update_of_ne hother _ _
        rw [hblock]
        exact (hshown.table.some ht0).2
  · have hseg : (withTable g segment c.segidx t bm block).segments (r.segment g) = g.segments (r.segment g) :=
      Function.update_of_ne hp _ _
    have htable : r.epochTable (withTable g segment c.segidx t bm block) = r.epochTable g := by
      unfold ReadList.epochTable
      rw [hsegment, hseg]
    refine ⟨C, ?_, ?_, hbm _ hshown.inUse, hshown.edges, ?_⟩
    · rw [hsegment, hseg]
      exact hshown.layout
    · rw [hsegment, hseg]
      exact hshown.head
    · rw [htable]
      refine ⟨hshown.table.none, fun ht0 => ⟨hbm _ (hshown.table.some ht0).1, ?_⟩⟩
      rw [hlen]
      have hother := opened_table_ne h hob hne (hshown.table.some ht0).1 fun hh => hp hh.1
      have hblock : (withTable g segment c.segidx t bm block).epochBlocks (r.epochTable g) =
          g.epochBlocks (r.epochTable g) := Function.update_of_ne hother _ _
      rw [hblock]
      exact (hshown.table.some ht0).2

end opened

theorem shows_of_invAt {pc : PutAt} (h : InvAt r g pc) : Shows r g := by
  have hentry : ∀ {c segment edgeBlock}, AtEntry r g c segment edgeBlock → Shows r g := by
    rintro c segment edgeBlock ⟨hlater, own, log, g', seen, hopen, hseen, hready⟩
    obtain ⟨t, bm, block, rfl, hob, hok⟩ := hready.result
    refine shows_of_opened hopen hob (hok ⟨c.dst, c.edgeData⟩) fun entry hentry => ?_
    rw [List.mem_singleton.mp hentry]
    exact Nat.lt_of_lt_of_le hlater.epoch hseen.le
  cases pc with
  | idle =>
    obtain ⟨own, log, hready⟩ := h
    exact shows_of_ready hready
  | locate c =>
    obtain ⟨-, -, own, log, hready⟩ := h
    exact shows_of_ready hready
  | room c segment =>
    obtain ⟨-, -, -, -, own, log, hready⟩ := h
    exact shows_of_ready hready
  | table c segment edgeBlock =>
    obtain ⟨-, own, log, hopen⟩ := h
    exact shows_of_ready hopen.ready
  | epoch c segment edgeBlock t =>
    obtain ⟨hlater, own, log, g', hopen, ⟨hnil, hready, -⟩ | ⟨-, rfl, -⟩⟩ := h
    · obtain ⟨t', bm, block, rfl, hob, hok⟩ := hready.result
      have hfirst : EpochOk block (log c.src c.label c.dir ++ [⟨c.writeEpochId, ⟨c.dst, c.edgeData⟩⟩]) := by
        rw [hnil]
        exact hok _
      refine shows_of_opened hopen hob hfirst fun entry hentry => ?_
      rw [List.mem_singleton.mp hentry]
      exact hlater.epoch
    · exact shows_of_ready hopen.ready
  | epochEntry c segment edgeBlock t =>
    obtain ⟨-, own, log, g', bm, block, hopen, -, rfl, hob, hepochs, -, -⟩ := h
    have hsame : EpochOk block (log c.src c.label c.dir ++ []) := by rw [List.append_nil]; exact hepochs
    refine shows_of_opened hopen hob hsame fun entry hentry => ?_
    cases hentry
  | entry c segment edgeBlock => exact hentry h
  | property c segment n =>
    obtain ⟨g', edgeBlock, hentry', rfl, -⟩ := h
    obtain ⟨C, b, rest, hin⟩ := hentry'.insertable
    obtain ⟨seg', hseg', -, -, own, log, hready⟩ :=
      hin.insert _ (slotBytes_length (g'.segments segment) edgeBlock c.dst _)
    rw [insertEdge_slotBytes hseg'] at hready
    exact shows_of_ready hready

/-! ### Edge blocks -/

/-- An edge block in its segment, and the blocks behind it. -/
structure FoundBlock where
  segment : Nat
  slot : Nat
  order : Nat
  rest : List Block
  size : Nat

namespace FoundBlock

def chain (f : FoundBlock) (edges : List Edge) : List Block := ⟨f.slot, f.order, edges⟩ :: f.rest

def pointer (f : FoundBlock) : Nat := (⟨f.slot, f.order, []⟩ : Block).pointer f.segment

end FoundBlock

/-- The block is of the list while the list lies in its segment, and is left alone once the list has moved. -/
inductive FoundAt (r : Watched) (g : SegGraph) (f : FoundBlock) (edges : List Edge) : Prop
  | current (C : Nat → List Block) : f.segment = r.segment g → SegInv True r.stride (g.segments f.segment) C →
      HeldChain r.stride (g.segments f.segment) C r.segidx (f.chain edges) →
      (edges = [] → C r.segidx = f.chain edges) → FoundAt r g f edges
  | old : OldSegment g f.segment → edges ≠ [] → FoundAt r g f edges

structure HeldBlock (r : Watched) (g : SegGraph) (f : FoundBlock) (edges : List Edge) : Prop where
  segment_ne : f.segment ≠ 0
  head : (g.segments f.segment).head = f.segment
  size : (g.segments f.segment).order = f.size
  chain : ChainOk True r.stride (g.segments f.segment) (f.chain edges)
  fits : ∃ total, Fits r.stride total f.size ∧ ∀ b ∈ f.chain edges, b.stop ≤ total
  snapshot : r.edges <+: chainEdges f.rest ++ edges
  length : (chainEdges f.rest).length + edges.length ≤ r.length g
  place : FoundAt r g f edges

theorem SegInv.of_content {stride : Nat} {seg seg' : VegitoSegment} {C : Nat → List Block}
    (h : SegInv True stride seg C) (hsame : SameContent seg { seg' with epochTables := seg.epochTables })
    (halloc : seg'.allocatedEdgeNum = seg.allocatedEdgeNum) : SegInv True stride seg' C := by
  obtain ⟨horder, hhead, hregions, -, hbody⟩ := hsame
  dsimp only at horder hhead hregions hbody
  refine ⟨?_, fun i => ?_, fun i => (h.chain i).congr hbody horder hhead, fun i b hb => ?_, h.apart, ?_, ?_⟩
  · rw [halloc, horder]
    exact h.fits
  · rw [hregions, hhead]
    exact h.region i
  · rw [halloc]
    exact h.inside i b hb
  · rw [halloc]
    exact h.slots
  · rw [hhead, horder]
    exact h.address

theorem chain_stops {f : FoundBlock} {edges edges' : List Edge} {total : Nat}
    (h : ∀ b ∈ f.chain edges, b.stop ≤ total) :
    ∀ b ∈ f.chain edges', b.stop ≤ total := by
  intro b hb
  rcases List.mem_cons.mp hb with rfl | hb
  · exact h ⟨f.slot, f.order, edges⟩ List.mem_cons_self
  · exact h b (List.mem_cons_of_mem _ hb)

theorem HeldBlock.step {f : FoundBlock} {edges : List Edge} (h : HeldBlock r g f edges) (hshows : Shows r g)
    (hchange : Change r g g') : ∃ edges', edges.length ≤ edges'.length ∧ HeldBlock r g' f edges' := by
  have hlength := h.length.trans hchange.length_le
  obtain ⟨total, hfits, hstops⟩ := h.fits
  cases h.place with
  | old hold hne =>
    obtain ⟨hold', hkept⟩ := hchange.oldSegment hold
    refine ⟨edges, Nat.le_refl _, h.segment_ne, ?_, ?_, ?_, h.fits, h.snapshot, hlength, .old hold' hne⟩
    · rw [hkept]
      exact h.head
    · rw [hkept]
      exact h.size
    · rw [hkept]
      exact h.chain
  | current C hseg hinv hheld hnewest =>
    have hne : r.segment g ≠ 0 := hseg ▸ h.segment_ne
    obtain ⟨C₁, hshown⟩ := hshows.located hne
    have hcases := hchange.segment hne hshown.inUse
    rw [← hseg] at hcases
    rcases hcases with ⟨hseg', ⟨hsame, halloc⟩ | ⟨C₀, C', i, settled, hinv₀, hinv', hstep, hsettled⟩⟩ |
      ⟨hold', hsame, hcomplete⟩
    · -- the step is elsewhere
      have hchain : ChainOk True r.stride (g'.segments f.segment) (f.chain edges) :=
        h.chain.congr hsame.body hsame.order hsame.head
      refine ⟨edges, Nat.le_refl _, h.segment_ne, hsame.head.trans h.head, hsame.order.trans h.size, hchain, h.fits,
        h.snapshot, hlength, .current C hseg'.symm (SegInv.of_content hinv hsame halloc) ⟨hchain, fun b hb => ?_,
          hheld.beside⟩ hnewest⟩
      rw [halloc]
      exact hheld.inside b hb
    · -- the step is in the segment
      rw [hinv₀.unique hinv] at hstep
      obtain ⟨edges', hheld', hsnap, hgrows, hmore, hnewest'⟩ := hheld.step hinv hinv' hstep h.snapshot
        fun hi => by rw [Watched.edges, List.length_map]; exact hsettled hi
      obtain ⟨horder, hhead, -⟩ := hstep.header
      refine ⟨edges', hgrows, h.segment_ne, hhead.trans h.head, horder.trans h.size, hheld'.chain,
        ⟨total, hfits, chain_stops hstops⟩, hsnap, ?_, .current C' hseg'.symm hinv' hheld' fun hnil => ?_⟩
      · rcases hmore with rfl | hC'
        · exact hlength
        · have hlen := Watched.length_of_layout (r := r) (g := g') (C := C') (hseg' ▸ h.segment_ne) (hseg' ▸ hinv')
          rw [hlen, hC']
          simp [chainEdges]
      · have hempty : edges = [] := List.eq_nil_of_length_eq_zero (by rw [hnil] at hgrows; exact Nat.le_zero.mp hgrows)
        exact hnewest' hempty (hnewest hempty)
    · -- the list moves
      refine ⟨edges, Nat.le_refl _, h.segment_ne, hsame.head.trans h.head, hsame.order.trans h.size,
        h.chain.congr hsame.body hsame.order hsame.head, h.fits, h.snapshot, hlength, .old hold' fun hnil => ?_⟩
      exact hcomplete C _ f.rest hinv (hnewest hnil) hnil

def HeldRegion (r : Watched) (g : SegGraph) (segment edgeBlock : Nat) : Prop :=
  (edgeBlock = 0 ∧ r.snapshot = []) ∨
    ∃ f edges, f.segment = segment ∧ edgeBlock = f.pointer ∧ HeldBlock r g f edges

theorem HeldRegion.step {segment edgeBlock : Nat} (h : HeldRegion r g segment edgeBlock) (hshows : Shows r g)
    (hchange : Change r g g') : HeldRegion r g' segment edgeBlock := by
  rcases h with hnone | ⟨f, edges, hseg, hptr, hblock⟩
  · exact Or.inl hnone
  · obtain ⟨edges', -, hblock'⟩ := hblock.step hshows hchange
    exact Or.inr ⟨f, edges', hseg, hptr, hblock'⟩

theorem heldRegion_current (hshows : Shows r g) (hne : r.segment g ≠ 0) :
    HeldRegion r g (r.segment g) ((g.segments (r.segment g)).regionPtrs r.segidx) := by
  obtain ⟨C, hshown⟩ := hshows.located hne
  have hregion := hshown.layout.region r.segidx
  have hheld := hshown.layout.held r.segidx
  have hedges := hshown.edges
  have hlen := Watched.length_of_layout hne hshown.layout
  rw [hregion, hshown.head]
  generalize hC : C r.segidx = c at hheld hedges hlen
  cases c with
  | nil =>
    have hnil : r.edges = [] := List.prefix_nil.mp hedges
    exact Or.inl ⟨rfl, List.map_eq_nil_iff.mp hnil⟩
  | cons b rest =>
    refine Or.inr ⟨⟨r.segment g, b.slot, b.order, rest, (g.segments (r.segment g)).order⟩, b.edges, rfl, rfl, hne,
      hshown.head, rfl, hheld.chain, ⟨_, hshown.layout.fits, hheld.inside⟩, hedges, ?_,
          .current C rfl hshown.layout hheld
        fun _ => hC⟩
    rw [hlen]
    simp [chainEdges]

/-! ### Epoch tables -/

/-- The entries of a table that was replaced end before the later epochs. -/
structure CutOff (r : Watched) (entries : List EpochEntry) : Prop where
  nothing : EdgeIterator.findReadEnd r.epoch none entries = .nothing → r.snapshot = []
  upTo : ∀ k, EdgeIterator.findReadEnd r.epoch none entries = .upTo k → k = r.snapshot.length ∧ 0 < k
  whole : EdgeIterator.findReadEnd r.epoch none entries ≠ .whole

inductive HeldTable (r : Watched) (g : SegGraph) (t : Nat) : Prop
  | none : t = 0 → r.snapshot = [] → HeldTable r g t
  | current : t ≠ 0 → r.segment g ≠ 0 → r.epochTable g = t → HeldTable r g t
  | old : OldTable g t → CutOff r (g.epochBlocks t).entries → HeldTable r g t

theorem HeldTable.step {t : Nat} (h : HeldTable r g t) (hshows : Shows r g) (hchange : Change r g g') :
    HeldTable r g' t := by
  cases h with
  | none h0 hnil => exact .none h0 hnil
  | old hold hcut =>
    obtain ⟨hold', hkept⟩ := hchange.oldTable hold
    exact .old hold' (by rw [hkept]; exact hcut)
  | current ht hne htable =>
    obtain ⟨C, hshown⟩ := hshows.located hne
    have ht0 : r.epochTable g ≠ 0 := htable.symm ▸ ht
    obtain ⟨huse, hcuts⟩ := hshown.table.some ht0
    rcases hchange.epochTable hne hshown.inUse ht0 huse with hsame | ⟨hold, hkept, hlater⟩
    · exact .current ht (hchange.segment_ne hne) (hsame.trans htable)
    · subst htable
      refine .old hold ?_
      rw [hkept]
      exact ⟨hcuts.nothing, hcuts.upTo, hcuts.later hlater⟩

theorem heldTable_current (hshows : Shows r g) (hne : r.segment g ≠ 0) : HeldTable r g (r.epochTable g) := by
  obtain ⟨C, hshown⟩ := hshows.located hne
  by_cases ht : r.epochTable g = 0
  · exact .none ht (hshown.table.none ht)
  · exact .current ht hne rfl

/-! ### Segments and labels -/

inductive HeldSegment (r : Watched) (g : SegGraph) (segment : Nat) : Prop
  | none : segment = 0 → r.snapshot = [] → HeldSegment r g segment
  | current : segment ≠ 0 → segment = r.segment g → HeldSegment r g segment
  | old : segment ≠ 0 → OldSegment g segment → HeldTable r g ((g.segments segment).epochTables r.segidx) →
      HeldRegion r g segment ((g.segments segment).regionPtrs r.segidx) → HeldSegment r g segment

theorem HeldSegment.table {segment : Nat} (h : HeldSegment r g segment) (hne : segment ≠ 0) (hshows : Shows r g) :
    HeldTable r g ((g.segments segment).epochTables r.segidx) := by
  cases h with
  | none h0 => exact absurd h0 hne
  | current _ heq =>
    subst heq
    exact heldTable_current hshows hne
  | old _ _ htable => exact htable

theorem HeldSegment.region {segment : Nat} (h : HeldSegment r g segment) (hne : segment ≠ 0) (hshows : Shows r g) :
    HeldRegion r g segment ((g.segments segment).regionPtrs r.segidx) := by
  cases h with
  | none h0 => exact absurd h0 hne
  | current _ heq =>
    subst heq
    exact heldRegion_current hshows hne
  | old _ _ _ hregion => exact hregion

theorem HeldSegment.step {segment : Nat} (h : HeldSegment r g segment) (hshows : Shows r g) (hchange : Change r g g') :
    HeldSegment r g' segment := by
  cases h with
  | none h0 hnil => exact .none h0 hnil
  | old hne hold htable hregion =>
    obtain ⟨hold', hkept⟩ := hchange.oldSegment hold
    refine .old hne hold' ?_ ?_
    · rw [hkept]
      exact htable.step hshows hchange
    · rw [hkept]
      exact hregion.step hshows hchange
  | current hne heq =>
    subst heq
    obtain ⟨C, hshown⟩ := hshows.located hne
    rcases hchange.segment hne hshown.inUse with ⟨hseg', -⟩ | ⟨hold, hsame, -⟩
    · exact .current hne hseg'.symm
    · refine .old hne hold ?_ ?_
      · rw [hsame.tables]
        exact (heldTable_current hshows hne).step hshows hchange
      · rw [hsame.regions]
        exact (heldRegion_current hshows hne).step hshows hchange

inductive HeldLabels (r : Watched) (g : SegGraph) (pointer : Nat) : Prop
  | none : pointer = 0 → r.snapshot = [] → HeldLabels r g pointer
  | current : pointer ≠ 0 → pointer = g.edgeLabelPtrs r.segid → HeldLabels r g pointer
  | old : pointer ≠ 0 → OldLabels g pointer →
      HeldSegment r g (entriesPointer (g.edgeLabelBlocks pointer).entries r.label r.dir) → HeldLabels r g pointer

theorem heldLabels_current (hshows : Shows r g) : HeldLabels r g (g.edgeLabelPtrs r.segid) := by
  by_cases h0 : g.edgeLabelPtrs r.segid = 0
  · refine .none h0 (hshows.absent ?_)
    unfold ReadList.segment SegGraph.locateSegment
    rw [if_pos h0]
  · exact .current h0 rfl

theorem heldSegment_current (hshows : Shows r g) : HeldSegment r g (r.segment g) := by
  by_cases h0 : r.segment g = 0
  · exact .none h0 (hshows.absent h0)
  · exact .current h0 rfl

theorem HeldLabels.segment {pointer : Nat} (h : HeldLabels r g pointer) (hne : pointer ≠ 0) (hshows : Shows r g) :
    HeldSegment r g (entriesPointer (g.edgeLabelBlocks pointer).entries r.label r.dir) := by
  cases h with
  | none h0 => exact absurd h0 hne
  | old _ _ hsegment => exact hsegment
  | current _ heq =>
    have hsegment : entriesPointer (g.edgeLabelBlocks pointer).entries r.label r.dir = r.segment g := by
      unfold ReadList.segment
      rw [g.locateSegment_eq, ← heq, if_neg hne]
    rw [hsegment]
    exact heldSegment_current hshows

theorem HeldLabels.step {pointer : Nat} (h : HeldLabels r g pointer) (hshows : Shows r g) (hchange : Change r g g') :
    HeldLabels r g' pointer := by
  cases h with
  | none h0 hnil => exact .none h0 hnil
  | old hne hold hsegment =>
    obtain ⟨hold', hkept⟩ := hchange.oldLabels hold
    exact .old hne hold' (by rw [hkept]; exact hsegment.step hshows hchange)
  | current hne heq =>
    have hsegment := (HeldLabels.current hne heq).segment hne hshows
    subst heq
    rcases hchange.labels hne (hshows.labels hne) with hsame | ⟨hold, hkept⟩
    · exact .current hne hsame.symm
    · exact .old hne hold (by rw [hkept]; exact hsegment.step hshows hchange)

end Gart.Fragment
