import Gart.Seggraph.EpochTable
import Gart.Seggraph.LabelBlock

/-!
# The invariant of the segmented graph

Between two calls every adjacency list is described by a list of entries with
their epochs, its *log*. `GraphInv` ties the blocks of the graph to the logs.
Which block belongs to what is followed by an owner map on pointers: a block
that is owned is never handed out again, and no two owners share a block.
-/

namespace Gart.Seggraph
open Gart.ByteMemory Gart.Outcome

inductive Owner
  | labels (segid : Nat)
  | segment (segid label : Nat) (dir : Dir)
  | epochs (segid label : Nat) (dir : Dir) (idx : Nat)
  | retired
  deriving DecidableEq

/-- The entries of the list of a vertex, label and direction, oldest first. -/
abbrev Log := Nat → Nat → Dir → List LogEntry

/-! ### Owned blocks -/

def Owned (bm : BlockManager) (own : Nat → Option Owner) : Prop :=
  ∀ p o, own p = some o → p ≠ 0 ∧ ¬ bm.Available p

section owned
variable {bm bm' : BlockManager} {own : Nat → Option Owner} {q old : Nat}

theorem Owned.fresh (h : Owned bm own) (ha : BlockManager.Alloc bm q bm') : own q = none := by
  cases ho : own q with
  | none => rfl
  | some o => exact absurd ha.was (h q o ho).2

theorem Owned.alloc (h : Owned bm own) (ha : BlockManager.Alloc bm q bm') (o : Owner) :
    Owned bm' (Function.update own q (some o)) := by
  intro p o' hp
  by_cases hpq : p = q
  · subst hpq
    exact ⟨Nat.pos_iff_ne_zero.mp ha.pos, ha.now⟩
  · rw [Function.update_of_ne hpq] at hp
    obtain ⟨hne, hnot⟩ := h p o' hp
    exact ⟨hne, fun hav => hnot (ha.shrink p hav)⟩

theorem Owned.obtain (h : Owned bm own) (hob : SegGraph.Obtained bm bm' old q) {o : Owner}
    (hold : old ≠ 0 → own old = some o) : Owned bm' (Function.update own q (some o)) := by
  rcases hob with ⟨rfl, hne, rfl⟩ | ha
  · rw [← hold hne, Function.update_eq_self]
    exact h
  · exact h.alloc ha o

theorem Owned.obtain_eq (h : Owned bm own) (hob : SegGraph.Obtained bm bm' old q) {o : Owner}
    (hold : old ≠ 0 → own old = some o) : own q = none ∨ own q = some o := by
  rcases hob with ⟨rfl, hne, rfl⟩ | ha
  · exact Or.inr (hold hne)
  · exact Or.inl (h.fresh ha)

theorem update_own_of_some {o o' : Owner} {p : Nat} (hq : own q = none ∨ own q = some o)
    (hp : own p = some o') : Function.update own q (some o) p = some o' := by
  by_cases hpq : p = q
  · subst hpq
    rw [Function.update_self]
    rcases hq with hq | hq
    · rw [hq] at hp
      exact absurd hp (by simp)
    · rw [← hq, hp]
  · rw [Function.update_of_ne hpq]
    exact hp

end owned

/-! ### Lists and segments -/

/-- One list: its chain holds the log, its epoch table the epochs. A list in the
middle of an insertion (`hole`) may have an empty newest block; older blocks are never empty. -/
structure ListOk (epochBlocks : Nat → EpochBlock) (own : Nat → Option Owner) (hole : Prop)
    (owner : Owner) (table : Nat) (chain : List Block) (log : List LogEntry) : Prop where
  edges : chainEdges chain = log.map LogEntry.edge
  head : ¬ hole → ∀ b rest, chain = b :: rest → b.edges ≠ []
  noTable : log = [] → table = 0
  table : log ≠ [] → table ≠ 0 ∧ own table = some owner ∧ EpochOk (epochBlocks table) log
  older : ∀ b rest, chain = b :: rest → ∀ c ∈ rest, c.edges ≠ []

def SegHolds (tracked : Prop) (stride : Nat) (seg : VegitoSegment)
    (epochBlocks : Nat → EpochBlock) (own : Nat → Option Owner) (owner : Nat → Owner)
    (hole : Nat → Prop) (log : Nat → List LogEntry) : Prop :=
  ∃ C, SegInv tracked stride seg C ∧ ∀ idx, idx < vertexPerSeg →
    ListOk epochBlocks own (hole idx) (owner idx) (seg.epochTables idx) (C idx) (log idx)

theorem ListOk.mono {eb eb' : Nat → EpochBlock} {own own' : Nat → Option Owner} {hole : Prop}
    {owner : Owner} {table : Nat} {chain : List Block} {log : List LogEntry}
    (h : ListOk eb own hole owner table chain log)
    (hown : own table = some owner → own' table = some owner)
    (heb : own table = some owner → eb' table = eb table) :
    ListOk eb' own' hole owner table chain log where
  edges := h.edges
  head := h.head
  noTable := h.noTable
  table hne := by
    obtain ⟨h1, h2, h3⟩ := h.table hne
    refine ⟨h1, hown h2, ?_⟩
    rw [heb h2]
    exact h3
  older := h.older

theorem SegHolds.mono {tracked : Prop} {stride : Nat} {seg : VegitoSegment}
    {eb eb' : Nat → EpochBlock} {own own' : Nat → Option Owner} {owner : Nat → Owner}
    {hole : Nat → Prop} {log : Nat → List LogEntry}
    (h : SegHolds tracked stride seg eb own owner hole log)
    (hown : ∀ t idx, own t = some (owner idx) → own' t = some (owner idx))
    (heb : ∀ t idx, own t = some (owner idx) → eb' t = eb t) :
    SegHolds tracked stride seg eb' own' owner hole log := by
  obtain ⟨C, hinv, hlists⟩ := h
  refine ⟨C, hinv, ?_⟩
  intro idx hidx
  exact (hlists idx hidx).mono (hown _ idx) (heb _ idx)

theorem SegHolds.congr {tracked : Prop} {stride : Nat} {seg : VegitoSegment}
    {eb : Nat → EpochBlock} {own : Nat → Option Owner} {owner : Nat → Owner}
    {hole hole' : Nat → Prop} {log log' : Nat → List LogEntry}
    (h : SegHolds tracked stride seg eb own owner hole log)
    (hhole : ∀ idx, idx < vertexPerSeg → (hole' idx ↔ hole idx))
    (hlog : ∀ idx, idx < vertexPerSeg → log' idx = log idx) :
    SegHolds tracked stride seg eb own owner hole' log' := by
  obtain ⟨C, hinv, hlists⟩ := h
  refine ⟨C, hinv, ?_⟩
  intro idx hidx
  have hl := hlists idx hidx
  rw [hlog idx hidx]
  exact ⟨hl.edges, fun hn => hl.head fun hh => hn ((hhole idx hidx).mpr hh), hl.noTable, hl.table, hl.older⟩

def vertexOf (segid idx : Nat) : Nat := segid * vertexPerSeg + idx

theorem vertexOf_div_mod (v : Nat) : vertexOf (v / vertexPerSeg) (v % vertexPerSeg) = v := by
  unfold vertexOf
  rw [Nat.mul_comm]
  exact Nat.div_add_mod v vertexPerSeg

theorem vertexOf_inj {s s' i i' : Nat} (hi : i < vertexPerSeg) (hi' : i' < vertexPerSeg)
    (h : vertexOf s i = vertexOf s' i') : s = s' ∧ i = i' := by
  unfold vertexOf vertexPerSeg at *
  omega

/-! ### The graph -/

/-- The direction under which a list is known: undirected labels have one list. -/
def SegGraph.canonDir (g : SegGraph) (label : Nat) (dir : Dir) : Dir :=
  if g.isEdgeUndirected label then .eout else dir

theorem SegGraph.canonDir_eq_iff (g : SegGraph) (label : Nat) (dir dir' : Dir) :
    g.canonDir label dir = g.canonDir label dir' ↔
      SegGraph.SameList (g.isEdgeUndirected label) dir dir' := by
  unfold canonDir SameList
  cases g.isEdgeUndirected label <;> cases dir <;> cases dir' <;> simp

structure GraphInv (tracked : Nat → Prop) (stride : Nat → Nat) (g : SegGraph)
    (own : Nat → Option Owner) (log : Log) (hole : Nat → Nat → Dir → Prop) : Prop where
  bm : g.blockManager.WellFormed
  capacity : g.blockManager.capacity ≤ 2 ^ 64
  owned : Owned g.blockManager own
  labels : ∀ s, g.edgeLabelPtrs s ≠ 0 → own (g.edgeLabelPtrs s) = some (.labels s)
  owner : ∀ s l d, g.locateSegment s l d ≠ 0 →
    own (g.locateSegment s l d) = some (.segment s l (g.canonDir l d))
  head : ∀ s l d, g.locateSegment s l d ≠ 0 →
    (g.segments (g.locateSegment s l d)).head = g.locateSegment s l d
  buffer : ∀ s l d, g.locateSegment s l d ≠ 0 →
    g.locateSegment s l d + 2 ^ (g.segments (g.locateSegment s l d)).order ≤
      g.blockManager.capacity
  holds : ∀ s l d, g.locateSegment s l d ≠ 0 →
    SegHolds (tracked l) (stride l) (g.segments (g.locateSegment s l d)) g.epochBlocks own
      (fun idx => .epochs s l (g.canonDir l d) idx) (fun idx => hole (vertexOf s idx) l d)
      (fun idx => log (vertexOf s idx) l d)
  absent : ∀ s l d, g.locateSegment s l d = 0 →
    ∀ idx, idx < vertexPerSeg → log (vertexOf s idx) l d = []
  both : ∀ s l, g.isEdgeUndirected l = true →
    g.locateSegment s l .eout = g.locateSegment s l .ein ∧
    ∀ v, log v l .eout = log v l .ein
  short : ∀ v l d, (log v l d).length < 2 ^ 32
  unborn : ∀ s, g.vertexId ≤ s * vertexPerSeg → g.edgeLabelPtrs s = 0
  segCount : g.vertexId ≤ g.segId * vertexPerSeg ∧ g.segId * vertexPerSeg < g.vertexId + vertexPerSeg
  recycled : ∀ x ∈ g.segmentsToRecycle, own x.1 = some .retired
  recycledOnce : (g.segmentsToRecycle.map Prod.fst).Nodup

section inv
variable {tracked : Nat → Prop} {stride : Nat → Nat} {g : SegGraph} {own own' : Nat → Option Owner}
  {log log' : Log} {hole hole' : Nat → Nat → Dir → Prop}

theorem GraphInv.locate_inj (h : GraphInv tracked stride g own log hole) {s s' l l' : Nat}
    {d d' : Dir} (hne : g.locateSegment s l d ≠ 0)
    (heq : g.locateSegment s' l' d' = g.locateSegment s l d) :
    s' = s ∧ l' = l ∧ SegGraph.SameList (g.isEdgeUndirected l) d d' := by
  have h1 := h.owner s l d hne
  have h2 := h.owner s' l' d' (by rw [heq]; exact hne)
  rw [heq, h1] at h2
  have h3 := Option.some.inj h2
  simp only [Owner.segment.injEq] at h3
  obtain ⟨rfl, rfl, hdir⟩ := h3
  exact ⟨rfl, rfl, (g.canonDir_eq_iff _ _ _).mp hdir⟩

theorem GraphInv.locate_same (h : GraphInv tracked stride g own log hole) {l : Nat} {d d' : Dir}
    (hd : SegGraph.SameList (g.isEdgeUndirected l) d d') (s : Nat) :
    g.locateSegment s l d' = g.locateSegment s l d := by
  rcases hd with rfl | hu
  · rfl
  · have hb := (h.both s l hu).1
    cases d <;> cases d' <;> simp_all

theorem GraphInv.log_same (h : GraphInv tracked stride g own log hole) {l : Nat} {d d' : Dir}
    (hd : SegGraph.SameList (g.isEdgeUndirected l) d d') (v : Nat) : log v l d' = log v l d := by
  rcases hd with rfl | hu
  · rfl
  · have hb := (h.both 0 l hu).2 v
    cases d <;> cases d' <;> simp_all

theorem GraphInv.length_of_capacity (h : GraphInv tracked stride g own log hole)
    (hcap : g.blockManager.capacity ≤ 2 ^ 35) (v l : Nat) (d : Dir) :
    (log v l d).length + 1 < 2 ^ 32 := by
  have hidx : v % vertexPerSeg < vertexPerSeg := Nat.mod_lt _ (by decide)
  have hv := vertexOf_div_mod v
  by_cases h0 : g.locateSegment (v / vertexPerSeg) l d = 0
  · have hnil := h.absent _ _ _ h0 _ hidx
    rw [hv] at hnil
    simp [hnil]
  · obtain ⟨C, hinv, hlists⟩ := h.holds _ _ _ h0
    have hedges := (hlists _ hidx).edges
    have hlen := hinv.edges_length_le hidx
    have hbytes := hinv.allocated_bytes
    have hbuffer := h.buffer _ _ _ h0
    have hheader : segmentHeaderSize = 65560 := rfl
    dsimp only at hedges
    rw [hv] at hedges
    rw [hedges, List.length_map] at hlen
    unfold VegitoSegment.blockSize at hbytes
    omega

/-- The vertices `v` of a list that changes, in both directions when undirected. -/
def OnList (g : SegGraph) (segid label : Nat) (dir : Dir) (v l : Nat) (d : Dir) : Prop :=
  v / vertexPerSeg = segid ∧ l = label ∧ SegGraph.SameList (g.isEdgeUndirected label) dir d

theorem div_vertexOf {s idx : Nat} (hidx : idx < vertexPerSeg) : vertexOf s idx / vertexPerSeg = s := by
  unfold vertexOf
  rw [Nat.mul_comm, Nat.mul_add_div (by unfold vertexPerSeg; omega), Nat.div_eq_of_lt hidx]
  omega

theorem GraphInv.inSegment {s l : Nat} {d : Dir} {p : Nat} {seg' : VegitoSegment}
    {eb' : Nat → EpochBlock} {bm' : BlockManager}
    (h : GraphInv tracked stride g own log hole)
    (hp : g.locateSegment s l d = p) (hp0 : p ≠ 0)
    (hbm : bm'.WellFormed) (hcap : bm'.capacity = g.blockManager.capacity)
    (howned : Owned bm' own')
    (hext : ∀ q o, own q = some o → own' q = some o)
    (heb : ∀ t s' l' c' idx, own t = some (.epochs s' l' c' idx) →
      (s', l', c') ≠ (s, l, g.canonDir l d) → eb' t = g.epochBlocks t)
    (hhead : seg'.head = p) (horder : seg'.order = (g.segments p).order)
    (hseg : SegHolds (tracked l) (stride l) seg' eb' own'
      (fun idx => .epochs s l (g.canonDir l d) idx) (fun idx => hole' (vertexOf s idx) l d)
      (fun idx => log' (vertexOf s idx) l d))
    (hlogOff : ∀ v l' d', ¬ OnList g s l d v l' d' → log' v l' d' = log v l' d')
    (hlogOn : ∀ v d', SegGraph.SameList (g.isEdgeUndirected l) d d' → log' v l d' = log' v l d)
    (hholeOff : ∀ v l' d', ¬ OnList g s l d v l' d' → (hole' v l' d' ↔ hole v l' d'))
    (hholeOn : ∀ v d', SegGraph.SameList (g.isEdgeUndirected l) d d' →
      (hole' v l d' ↔ hole' v l d))
    (hshort : ∀ v l' d', (log' v l' d').length < 2 ^ 32) :
    GraphInv tracked stride
      { g with
        blockManager := bm'
        epochBlocks := eb'
        segments := Function.update g.segments p seg' } own' log' hole' where
  bm := hbm
  capacity := by
    simp only [hcap]
    exact h.capacity
  owned := howned
  labels s' hs' := hext _ _ (h.labels s' hs')
  owner s' l' d' hne := hext _ _ (h.owner s' l' d' hne)
  head s' l' d' hne := by
    change (Function.update g.segments p seg' (g.locateSegment s' l' d')).head = _
    change g.locateSegment s' l' d' ≠ 0 at hne
    by_cases hq : g.locateSegment s' l' d' = p
    · rw [hq, Function.update_self]
      exact hhead.trans hq.symm
    · rw [Function.update_of_ne hq]
      exact h.head s' l' d' hne
  buffer s' l' d' hne := by
    change g.locateSegment s' l' d' +
      2 ^ (Function.update g.segments p seg' (g.locateSegment s' l' d')).order ≤ bm'.capacity
    change g.locateSegment s' l' d' ≠ 0 at hne
    have hbuffer := h.buffer s' l' d' hne
    rw [hcap]
    by_cases hq : g.locateSegment s' l' d' = p
    · rw [hq] at hbuffer ⊢
      rw [Function.update_self, horder]
      exact hbuffer
    · rw [Function.update_of_ne hq]
      exact hbuffer
  holds s' l' d' hne := by
    change SegHolds (tracked l') (stride l')
      (Function.update g.segments p seg' (g.locateSegment s' l' d')) eb' own'
      (fun idx => .epochs s' l' (g.canonDir l' d') idx) (fun idx => hole' (vertexOf s' idx) l' d')
      (fun idx => log' (vertexOf s' idx) l' d')
    change g.locateSegment s' l' d' ≠ 0 at hne
    by_cases hq : g.locateSegment s' l' d' = p
    · obtain ⟨rfl, rfl, hsame⟩ := h.locate_inj (by rw [hp]; exact hp0) (hq.trans hp.symm)
      have hcan : g.canonDir l' d' = g.canonDir l' d := ((g.canonDir_eq_iff _ _ _).mpr hsame).symm
      rw [hq, Function.update_self, hcan]
      exact hseg.congr (fun idx _ => hholeOn _ d' hsame) (fun idx _ => hlogOn _ d' hsame)
    · rw [Function.update_of_ne hq]
      have hoff : ∀ idx, idx < vertexPerSeg → ¬ OnList g s l d (vertexOf s' idx) l' d' := by
        rintro idx hidx ⟨hs, hl, hd⟩
        rw [div_vertexOf hidx] at hs
        subst hs hl
        exact hq ((h.locate_same hd s').trans hp)
      refine SegHolds.congr ((h.holds s' l' d' hne).mono (fun t idx ht => hext _ _ ht) ?_)
        (fun idx hidx => hholeOff _ _ _ (hoff idx hidx))
        (fun idx hidx => hlogOff _ _ _ (hoff idx hidx))
      · intro t idx ht
        refine heb t _ _ _ _ ht ?_
        intro heq
        simp only [Prod.mk.injEq] at heq
        obtain ⟨rfl, rfl, hcan⟩ := heq
        have hsame := (g.canonDir_eq_iff l' d d').mp hcan.symm
        exact hq ((h.locate_same hsame s').trans hp)
  absent s' l' d' h0 idx hidx := by
    change g.locateSegment s' l' d' = 0 at h0
    have hoff : ¬ OnList g s l d (vertexOf s' idx) l' d' := by
      rintro ⟨hs, hl, hd⟩
      rw [div_vertexOf hidx] at hs
      subst hs hl
      have heq := (h.locate_same hd s').trans hp
      exact hp0 (heq.symm.trans h0)
    rw [hlogOff _ _ _ hoff]
    exact h.absent s' l' d' h0 idx hidx
  both s' l' hu := by
    change g.isEdgeUndirected l' = true at hu
    refine ⟨(h.both s' l' hu).1, ?_⟩
    intro v
    by_cases hl : l' = l
    · subst hl
      rw [hlogOn v .eout (Or.inr hu), hlogOn v .ein (Or.inr hu)]
    · rw [hlogOff v l' .eout (fun hon => hl hon.2.1), hlogOff v l' .ein (fun hon => hl hon.2.1)]
      exact (h.both s' l' hu).2 v
  short := hshort
  unborn := h.unborn
  segCount := h.segCount
  recycled x hx := hext _ _ (h.recycled x hx)
  recycledOnce := h.recycledOnce

end inv

end Gart.Seggraph
