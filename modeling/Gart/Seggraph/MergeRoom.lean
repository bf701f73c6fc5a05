import Gart.Seggraph.PutEdge

/-!
# A merge always has room

A full segment of any distribution of edges over its vertices fits into one of
twice the size with one block for each list, and the pending edge fits too.
-/

namespace Gart.Seggraph
open Gart.ByteMemory Gart.Outcome

/-- A segment that holds a list for each of its vertices: the blocks of all lists lie in the first slots, which
fit behind the header, and the entries of a list are counted in 32 bits. The counter of `alloc` may have moved
on, because a refused request moves it as well. -/
structure LegalSegment (tracked : Prop) (stride : Nat) (seg : VegitoSegment) (C : Nat → List Block) : Prop where
  layout : ∃ total, SegInv tracked stride { seg with allocatedEdgeNum := total } C
  short : ∀ i, i < vertexPerSeg → (chainEdges (C i)).length < 2 ^ 32

/-- Order of the block that `put_edge` asks for. -/
def VegitoSegment.requestedOrder (seg : VegitoSegment) (idx : Nat) : Nat :=
  if seg.regionPtrs idx ≠ 0 then seg.getOrder (seg.regionPtrs idx) + 1 else defaultInitOrder

/-- An edge of vertex `idx` makes `put_edge` merge the segment: its newest block has no space, and the segment
has none for another block. -/
def VegitoSegment.Merges (seg : VegitoSegment) (idx edgePropSize : Nat) : Prop :=
  ¬ (seg.regionPtrs idx ≠ 0 ∧ seg.hasSpace (seg.regionPtrs idx) = true) ∧
    (seg.alloc (seg.requestedOrder idx) edgePropSize).1 = 0

instance (seg : VegitoSegment) (idx edgePropSize : Nat) : Decidable (seg.Merges idx edgePropSize) :=
  inferInstanceAs (Decidable (¬ _ ∧ _))

instance (seg : VegitoSegment) (b : Block) (prevNum prevPtr : Nat) :
    Decidable (BlockWords seg b prevNum prevPtr) :=
  decidable_of_iff
    (load seg.body b.addr 1 = b.order ∧ load seg.body (b.addr + 4) 4 = b.edges.length ∧
      load seg.body (b.addr + 8) 4 = prevNum ∧ load seg.body (b.addr + 16) 8 = prevPtr ∧
      (∀ i (h : i < b.edges.length), load seg.body (b.entryAddr i) 8 = b.edges[i].dst) ∧
      b.edges.length ≤ 2 ^ b.order)
    ⟨fun ⟨order, num, prevNum, prevPtr, entry, room⟩ => ⟨order, num, prevNum, prevPtr, entry, room⟩,
      fun h => ⟨h.order, h.num, h.prevNum, h.prevPtr, h.entry, h.room⟩⟩

instance (tracked : Prop) [Decidable tracked] (stride : Nat) (seg : VegitoSegment) (b : Block) :
    Decidable (BlockProps tracked stride seg b) :=
  inferInstanceAs (Decidable (_ → ∀ _ (_ : _ < _), _ = _))

instance decidableChainOk (tracked : Prop) [Decidable tracked] (stride : Nat) (seg : VegitoSegment) :
    ∀ c, Decidable (ChainOk tracked stride seg c)
  | [] => isTrue trivial
  | _ :: rest =>
    have := decidableChainOk tracked stride seg rest
    inferInstanceAs (Decidable (BlockWords _ _ _ _ ∧ BlockProps _ _ _ _ ∧ (∀ _ ∈ _, _ ∧ _) ∧ (_ → _) ∧ _))

section
variable {tracked : Prop} {stride idx : Nat} {seg : VegitoSegment} {C : Nat → List Block} {b : Block}
  {rest : List Block}

theorem ChainOk.withProps {c : List Block} (h : ChainOk False stride seg c)
    (hprops : ∀ b ∈ c, BlockProps tracked stride seg b) : ChainOk tracked stride seg c := by
  induction c with
  | nil => trivial
  | cons b rest ih =>
    obtain ⟨hwords, -, hlater, hsmall, hrest⟩ := h
    exact ⟨hwords, hprops b List.mem_cons_self, hlater, hsmall,
      ih hrest fun c hc => hprops c (List.mem_cons_of_mem b hc)⟩

/-! ### The list of the pending edge -/

/-- The orders of a chain decrease, so that its blocks together hold less than twice what the newest one can. -/
theorem ChainOk.edges_add_four_le (h : ChainOk tracked stride seg (b :: rest)) (horder : 2 ≤ b.order) :
    (chainEdges (b :: rest)).length + 4 ≤ 2 ^ (b.order + 1) := by
  induction rest generalizing b with
  | nil =>
    have hroom := h.1.room
    have hpow : 2 ^ 2 ≤ 2 ^ b.order := Nat.pow_le_pow_right (by decide) horder
    simp only [chainEdges, List.nil_append, Nat.pow_succ]
    omega
  | cons d rest ih =>
    obtain ⟨hwords, -, hbelow, hsmall, hrest⟩ := h
    have hroom := hwords.room
    have hthree : 3 ≤ b.order := by
      by_contra hlt
      have hnil := hsmall (by unfold copyThresholdOrder; omega)
      cases hnil
    have hpow : 2 ^ 3 ≤ 2 ^ b.order := Nat.pow_le_pow_right (by decide) hthree
    have holder : (chainEdges (d :: rest)).length + 4 ≤ 2 ^ b.order := by
      by_cases hd : 2 ≤ d.order
      · have hlt := (hbelow d List.mem_cons_self).2
        exact (ih hrest hd).trans (Nat.pow_le_pow_right (by decide) hlt)
      · -- a block of one or two entries is alone
        have hnil : rest = [] := hrest.2.2.2.1 (by unfold copyThresholdOrder; omega)
        have hdroom := hrest.1.room
        have hdpow : 2 ^ d.order ≤ 2 ^ 1 := Nat.pow_le_pow_right (by decide) (by omega)
        subst hnil
        simp only [chainEdges, List.nil_append]
        omega
    rw [chainEdges, List.length_append, Nat.pow_succ]
    omega

theorem ChainOk.short_of_full (h : ChainOk tracked stride seg (b :: rest))
    (hfull : b.edges.length = 2 ^ b.order) : (chainEdges (b :: rest)).length + 1 < 2 ^ 32 := by
  have hcount := load_lt seg.body (b.addr + 4) 4
  rw [h.1.num, hfull] at hcount
  have horder : b.order < 32 := (Nat.pow_lt_pow_iff_right (by decide : 1 < 2)).mp hcount
  by_cases htwo : 2 ≤ b.order
  · have hle := h.edges_add_four_le htwo
    have hpow : 2 ^ (b.order + 1) ≤ 2 ^ 32 := Nat.pow_le_pow_right (by decide) horder
    omega
  · have hnil : rest = [] := h.2.2.2.1 (by unfold copyThresholdOrder; omega)
    have hpow : 2 ^ b.order ≤ 2 ^ 1 := Nat.pow_le_pow_right (by decide) (by omega)
    subst hnil
    simp only [chainEdges, List.nil_append]
    omega

theorem SegInv.short_of_noSpace (h : SegInv tracked stride seg C)
    (hspace : ¬ (seg.regionPtrs idx ≠ 0 ∧ seg.hasSpace (seg.regionPtrs idx) = true)) :
    (chainEdges (C idx)).length + 1 < 2 ^ 32 := by
  have hregion := h.region idx
  have hchain := h.chain idx
  cases hC : C idx with
  | nil => simp [chainEdges]
  | cons b rest =>
    rw [hC] at hregion hchain
    have hptr : seg.regionPtrs idx = b.pointer seg.head := hregion
    rw [hptr] at hspace
    have hnone : ¬ seg.hasSpace (b.pointer seg.head) = true :=
      fun htrue => hspace ⟨Block.pointer_ne_zero _ _, htrue⟩
    have hwords := hchain.1
    have hcount := load_lt seg.body (b.addr + 4) 4
    rw [hwords.num] at hcount
    -- a counter that wraps to 0 would show space
    have hlast : b.edges.length + 1 < 2 ^ 32 := by
      by_contra hge
      have heq : b.edges.length + 1 = 2 ^ 32 := by omega
      refine hnone ?_
      simp only [VegitoSegment.hasSpace, hwords.getNumEntries, heq, edgeBlockHeaderSize, edgeEntrySize]
      simp
    rw [hwords.hasSpace hlast, decide_eq_true_eq, Nat.not_lt] at hnone
    exact hchain.short_of_full (Nat.le_antisymm hwords.room hnone)

/-! ### The merge -/

theorem LegalSegment.mergeSource (h : LegalSegment tracked stride seg C) (order : Nat) :
    MergeSource tracked stride (bumped seg order) C := by
  obtain ⟨total, hinv⟩ := h.layout
  exact ⟨hinv.region, fun i => (hinv.chain i).congr rfl rfl rfl, total, hinv.fits, hinv.inside⟩

theorem GraphInv.legalSegment {tracked : Nat → Prop} {stride : Nat → Nat} {g : SegGraph} {own : Nat → Option Owner}
    {log : Log} {hole : Nat → Nat → Dir → Prop} (h : GraphInv tracked stride g own log hole) {s l : Nat} {d : Dir}
    (hne : g.locateSegment s l d ≠ 0) :
    ∃ C, LegalSegment (tracked l) (stride l) (g.segments (g.locateSegment s l d)) C := by
  obtain ⟨C, hinv, hlists⟩ := h.holds s l d hne
  refine ⟨C, ⟨_, hinv⟩, fun i hi => ?_⟩
  rw [(hlists i hi).edges, List.length_map]
  exact h.short _ _ _

theorem LegalSegment.segInv_new (h : LegalSegment tracked stride seg C) {blank : VegitoSegment}
    {newPointer segid : Nat} (hplace : newPointer + 2 ^ (seg.order + 1) ≤ 2 ^ 64) :
    SegInv tracked stride (blank.fill newPointer (seg.order + 1) segid) fun _ => [] := by
  obtain ⟨total, hinv⟩ := h.layout
  have hfits := hinv.fits
  unfold Fits at hfits
  refine segInv_fill ?_ hplace
  rw [Nat.pow_succ]
  simp only at hfits
  omega

theorem Merging.newest {old new0 : VegitoSegment} {C' : Nat → List Block} {state : VegitoSegment × Nat}
    (h : Merging tracked stride old new0 (some idx) C vertexPerSeg state C') {i : Nat} (hi : i < vertexPerSeg)
    (hkept : i = idx ∨ chainEdges (C i) ≠ []) :
    ∃ b, C' i = [b] ∧ b.edges = chainEdges (C i) ∧ state.1.regionPtrs i = b.pointer state.1.head := by
  have hdone := h.done i hi
  have hskip : ¬ MergeSkips (some idx) C i := by
    rintro ⟨hnil, hne⟩
    rcases hkept with rfl | hedges
    · exact hne rfl
    · exact hedges (List.eq_nil_of_length_eq_zero hnil)
  rw [MergedChain, if_neg hskip] at hdone
  obtain ⟨b, hb, hedges, -⟩ := hdone
  refine ⟨b, hb, hedges, ?_⟩
  rw [h.inv.region i, hb]
  rfl

/-- For every legal segment and every edge that makes `put_edge` merge it, the merge into a segment of the next
order allocates a block for each list, and the edge fits into the block of its list. -/
theorem merge_hasRoom {segid newPointer : Nat} {blank : VegitoSegment} (hlegal : LegalSegment tracked stride seg C)
    (hstride : stride ≤ 16382) (hidx : idx < vertexPerSeg) (hmerges : seg.Merges idx stride)
    (hplace : newPointer + 2 ^ (seg.order + 1) ≤ 2 ^ 64) :
    ∃ new edgeBlock,
      (seg.alloc (seg.requestedOrder idx) stride).2.mergeSegment (blank.fill newPointer (seg.order + 1) segid)
        (some idx) (seg.regionPtrs idx) stride = .ok (new, edgeBlock) ∧
      (∀ i, i < vertexPerSeg → i = idx ∨ chainEdges (C i) ≠ [] →
        new.regionPtrs i ≠ 0 ∧ new.getNumEntries (new.regionPtrs i) = (chainEdges (C i)).length) ∧
      edgeBlock ≠ 0 ∧ new.regionPtrs idx = edgeBlock ∧ new.hasSpace edgeBlock = true ∧
      ∀ dst data, dst < 2 ^ 64 → data.length = stride → ∃ seg', new.insertEdge edgeBlock dst data = .ok seg' ∧
        seg'.getNumEntries edgeBlock = new.getNumEntries edgeBlock + 1 := by
  obtain ⟨total, hinv⟩ := hlegal.layout
  have hshort : (chainEdges (C idx)).length + 1 < 2 ^ 32 := hinv.short_of_noSpace hmerges.1
  have hroom : Fits stride (∑ i ∈ Finset.range vertexPerSeg, mergeCost (some idx) C i) (seg.order + 1) :=
    hinv.merge_fits hstride (some idx)
  have hmerge : Ensures ((bumped seg (seg.requestedOrder idx)).mergeSegment
        (blank.fill newPointer (seg.order + 1) segid) (some idx) (seg.regionPtrs idx) stride)
      (fun state => ∃ C', Merging tracked stride (bumped seg (seg.requestedOrder idx))
        (blank.fill newPointer (seg.order + 1) segid) (some idx) C vertexPerSeg state C')
      (fun _ => ¬ Fits stride (∑ i ∈ Finset.range vertexPerSeg, mergeCost (some idx) C i) (seg.order + 1)) :=
    mergeSegment_spec (hlegal.mergeSource _) (hlegal.segInv_new hplace) rfl rfl (Or.inl hroom) hlegal.short
      (Nat.le_refl stride) (fun _ => rfl)
  obtain ⟨⟨new, edgeBlock⟩, hok, C', hmerging⟩ :=
    (hmerge.mono (fun _ hq => hq) fun _ hfull => hfull hroom).exists_ok
  have hfound := hmerging.hasRoom hidx
  obtain ⟨b, hb, hedges, hregion⟩ := hmerging.newest hidx (Or.inl rfl)
  have hptr : edgeBlock = b.pointer new.head := hfound.newest.symm.trans hregion
  have hwords := (hmerging.inv.chain idx)
  rw [hb] at hwords
  refine ⟨new, edgeBlock, ?_, ?_, hfound.ne_zero, hfound.newest, ?_, ?_⟩
  · rw [alloc_snd]
    exact hok
  · intro i hi hkept
    obtain ⟨d, hd, hdedges, hdregion⟩ := hmerging.newest hi hkept
    have hchain := hmerging.inv.chain i
    rw [hd] at hchain
    dsimp only at hdregion
    rw [hdregion, hchain.1.getNumEntries, hdedges]
    exact ⟨Block.pointer_ne_zero _ _, rfl⟩
  · have hspace := hfound.space
    dsimp only at hspace
    rw [hptr] at hspace ⊢
    rw [hwords.1.getNumEntries, hwords.1.getOrder] at hspace
    rw [hwords.1.hasSpace (by rw [hedges]; exact hshort)]
    exact decide_eq_true hspace
  · intro dst data hdst hdata
    have hspace := hfound.space
    dsimp only at hspace
    rw [hptr, hwords.1.getNumEntries, hwords.1.getOrder] at hspace
    have hinsert := hmerging.inv.insertEdge (e := ⟨dst, data⟩) hb hspace
      (by rw [hb]; simp only [chainEdges, List.nil_append]; rw [hedges]; exact hshort) hdst hdata.le
      (fun _ => hdata) (fun _ => rfl)
    rw [← hptr] at hinsert
    obtain ⟨seg', hok', hinv', hsame⟩ := hinsert.exists_ok
    refine ⟨seg', hok', ?_⟩
    have hafter := hinv'.chain idx
    rw [Function.update_self] at hafter
    have hnum := hafter.1.getNumEntries
    rw [Block.push_pointer, hsame.head] at hnum
    dsimp only at hnum
    rw [hptr, hnum, hwords.1.getNumEntries, Block.push_edges, List.length_append]
    rfl

end

/-! ### A full segment

Properties of 1000 bytes leave room for 64 slots in a segment of 128 KiB. -/

/-- A block whose entries name different vertices, with the slot in every byte of a property. -/
def usedBlock (slot order num : Nat) : Block :=
  { slot := slot
    order := order
    edges := (List.range num).map fun i => ⟨100 * slot + i, List.replicate 1000 (UInt8.ofNat (slot + i))⟩ }

/-- The lists of three vertices take the first 60 slots. Both blocks of vertex 5 are full, and so are the older
ones of vertex 9. -/
def usedChains : List (Nat × List Block) :=
  [(5, [usedBlock 44 3 8, usedBlock 0 2 4]),
   (9, [usedBlock 25 4 2, usedBlock 14 3 8, usedBlock 7 2 4]),
   (4095, [usedBlock 55 1 1])]

def usedLists (i : Nat) : List Block := (usedChains.lookup i).getD []

def storeChain (head : Nat) : List Block → Memory → Memory
  | [], m => m
  | b :: rest, m =>
    let header := store (store (store (store (storeChain head rest m) b.addr 1 b.order) (b.addr + 4) 4 b.edges.length)
      (b.addr + 8) 4 (chainEdges rest).length) (b.addr + 16) 8 (chainPtr head rest)
    b.edges.zipIdx.foldl (fun m e => store m (b.entryAddr e.2) 8 e.1.dst) header

def usedSegment : VegitoSegment :=
  { order := 17
    segmentId := 0
    head := 2 ^ 20
    allocatedEdgeNum := 60
    regionPtrs := fun i => chainPtr (2 ^ 20) (usedLists i)
    epochTables := fun _ => 0
    body := fun x =>
      if x < 2 ^ 17 - 60 * 1000 then
        usedChains.foldl (fun m c => storeChain (2 ^ 20) c.2 m) (fun _ => 0) x
      else
        UInt8.ofNat ((2 ^ 17 - 1 - x) / 1000) }

theorem mem_of_lookup {chains : List (Nat × List Block)} {i : Nat} {c : List Block}
    (h : chains.lookup i = some c) : (i, c) ∈ chains := by
  induction chains with
  | nil => simp at h
  | cons p rest ih =>
    rw [List.lookup_cons] at h
    cases hkey : i == p.1 with
    | true =>
      rw [hkey] at h
      have heq : i = p.1 := eq_of_beq hkey
      have hval : p.2 = c := Option.some.inj h
      subst heq hval
      exact List.mem_cons_self
    | false =>
      rw [hkey] at h
      exact List.mem_cons_of_mem _ (ih h)

theorem mem_usedChains {i : Nat} (h : usedLists i ≠ []) : (i, usedLists i) ∈ usedChains := by
  unfold usedLists at h ⊢
  cases hfound : usedChains.lookup i with
  | none =>
    rw [hfound] at h
    exact absurd rfl h
  | some c => exact mem_of_lookup hfound

theorem usedSegment_body {x : Nat} (hx : 2 ^ 17 - 60 * 1000 ≤ x) :
    usedSegment.body x = UInt8.ofNat ((2 ^ 17 - 1 - x) / 1000) := if_neg (Nat.not_lt.mpr hx)

/-- A property slot is made of 1000 equal bytes. -/
theorem usedBlock_props {slot order num : Nat} (hfits : slot + num ≤ 60) :
    BlockProps True 1000 usedSegment (usedBlock slot order num) := by
  intro _ i hi
  have hnum : i < num := by
    have hlength : (usedBlock slot order num).edges.length = num := by
      simp only [usedBlock, List.length_map, List.length_range]
    rw [← hlength]
    exact hi
  have hdata : (usedBlock slot order num).edges[i].data = List.replicate 1000 (UInt8.ofNat (slot + i)) := by
    simp only [usedBlock, List.getElem_map, List.getElem_range]
  rw [hdata]
  refine List.eq_replicate_iff.mpr ⟨read_length _ _ _, fun x hx => ?_⟩
  obtain ⟨k, hk, rfl⟩ := List.mem_map.mp hx
  have hk : k < 1000 := List.mem_range.mp hk
  show usedSegment.body (2 ^ 17 - (slot + i + 1) * 1000 + k) = _
  rw [usedSegment_body (by omega)]
  congr 1
  omega

theorem usedSegment_legal : LegalSegment True 1000 usedSegment usedLists := by
  refine ⟨⟨60, by decide +kernel, fun i => rfl, fun i => ?_, fun i b hb => ?_, fun i j hne b hb c hc => ?_, ?_,
    by decide +kernel⟩, fun i _ => ?_⟩
  · by_cases hnil : usedLists i = []
    · rw [hnil]
      trivial
    · have hwords : ∀ c ∈ usedChains, ChainOk False 1000 usedSegment c.2 := by decide +kernel
      have hprops : ∀ c ∈ usedChains, ∀ b ∈ c.2, BlockProps True 1000 usedSegment b := by
        simp only [usedChains, List.forall_mem_cons]
        refine ⟨⟨?_, ?_, List.forall_mem_nil _⟩, ⟨?_, ?_, ?_, List.forall_mem_nil _⟩,
          ⟨?_, List.forall_mem_nil _⟩, List.forall_mem_nil _⟩
        all_goals exact usedBlock_props (by decide)
      exact (hwords _ (mem_usedChains hnil)).withProps (hprops _ (mem_usedChains hnil))
  · have hall : ∀ c ∈ usedChains, ∀ b ∈ c.2, b.stop ≤ 60 := by decide +kernel
    exact hall _ (mem_usedChains (List.ne_nil_of_mem hb)) b hb
  · have hall : ∀ c ∈ usedChains, ∀ d ∈ usedChains, c.1 ≠ d.1 →
        ∀ b ∈ c.2, ∀ b' ∈ d.2, b.stop ≤ b'.slot ∨ b'.stop ≤ b.slot := by decide +kernel
    exact hall _ (mem_usedChains (List.ne_nil_of_mem hb)) _ (mem_usedChains (List.ne_nil_of_mem hc)) hne b hb c hc
  · decide +kernel
  · by_cases hnil : usedLists i = []
    · rw [hnil]
      decide
    · have hall : ∀ c ∈ usedChains, (chainEdges c.2).length < 2 ^ 32 := by decide +kernel
      exact hall _ (mem_usedChains hnil)

theorem merge_hasRoom_used : ∃ new edgeBlock,
    (usedSegment.alloc (usedSegment.requestedOrder 5) 1000).2.mergeSegment (usedSegment.fill (2 ^ 21) 18 0)
      (some 5) (usedSegment.regionPtrs 5) 1000 = .ok (new, edgeBlock) ∧
    (∀ i, i < vertexPerSeg → i = 5 ∨ chainEdges (usedLists i) ≠ [] →
      new.regionPtrs i ≠ 0 ∧ new.getNumEntries (new.regionPtrs i) = (chainEdges (usedLists i)).length) ∧
    edgeBlock ≠ 0 ∧ new.regionPtrs 5 = edgeBlock ∧ new.hasSpace edgeBlock = true ∧
    ∀ dst data, dst < 2 ^ 64 → data.length = 1000 → ∃ seg', new.insertEdge edgeBlock dst data = .ok seg' ∧
      seg'.getNumEntries edgeBlock = new.getNumEntries edgeBlock + 1 :=
  merge_hasRoom usedSegment_legal (by decide) (by decide) (by decide +kernel) (by decide)

end Gart.Seggraph
