import Gart.Fragment.EdgeIterator
import Gart.Seggraph.GraphInv

/-!
# What a reader sees of an adjacency list

The iterator walks the entries of a chain from the newest visible one down. Its
state is a position in the list and the queue of the markers passed so far, so
its moves are those of `MarkerLog.seek`, and what it yields are the positions of
`MarkerLog.yields`.
-/

namespace Gart.Fragment
open Gart.ByteMemory Gart.Outcome Gart.Seggraph

/-- The position that an entry of a list deletes, if it is a marker. -/
def marksOf (edges : List Edge) (j : Nat) : Option Nat :=
  match edges[j]? with
  | some edge => if edge.dst ≥ deleteFlag then some (edge.dst - deleteFlag) else none
  | none => none

def Reads (tracked : Prop) (edges : List Edge) (p : Nat) (value : Nat × Bytes) : Prop :=
  ∃ edge, edges[p]? = some edge ∧ value.1 = edge.dst ∧ (tracked → value.2 = edge.data)

theorem marksOf_getElem {edges : List Edge} {j : Nat} {edge : Edge} (h : edges[j]? = some edge) :
    marksOf edges j =
      if edge.dst ≥ deleteFlag then some (edge.dst - deleteFlag) else none := by
  simp only [marksOf, h]

/-! ### The cursor -/

section cursor
variable {tracked : Prop} {stride : Nat} {seg : VegitoSegment} {edges : List Edge}
  {b : Block} {rest : List Block} {r : Nat} {queue : List Nat}

theorem getElem_of_chain (hedges : chainEdges (b :: rest) <+: edges) (hr : r < b.edges.length) :
    edges[(chainEdges rest).length + r]? = some b.edges[r] := by
  obtain ⟨more, rfl⟩ := hedges
  simp only [chainEdges, List.append_assoc]
  rw [List.getElem?_append_right (by omega), Nat.add_sub_cancel_left,
    List.getElem?_append_left hr, List.getElem?_eq_getElem hr]

theorem scanBlock_spec {prevPtr : Nat} (hw : BlockWords seg b (chainEdges rest).length prevPtr)
    (hedges : chainEdges (b :: rest) <+: edges) (hr : r ≤ b.edges.length)
    {out : Nat × List Nat × Bool}
    (hout : EdgeIterator.scanBlock seg (b.pointer seg.head) r queue = out) :
    out.1 ≤ r ∧ (out.2.2 = true → 0 < out.1 ∧
      MarkerLog.seek (marksOf edges) ((chainEdges rest).length + r) queue =
        ((chainEdges rest).length + out.1, out.2.1)) ∧
    (out.2.2 = false → out.1 = 0 ∧
      MarkerLog.seek (marksOf edges) ((chainEdges rest).length + r) queue =
        MarkerLog.seek (marksOf edges) (chainEdges rest).length out.2.1) := by
  induction r generalizing queue with
  | zero =>
    subst hout
    simp [EdgeIterator.scanBlock]
  | succ r ih =>
    have hentry := hw.getEntry r (by omega)
    have hmark := marksOf_getElem (getElem_of_chain hedges (show r < b.edges.length by omega))
    have hsucc : (chainEdges rest).length + (r + 1) = (chainEdges rest).length + r + 1 := by omega
    rw [hsucc]
    simp only [EdgeIterator.scanBlock, hentry, hw.getPrevNumEntries] at hout
    simp only [MarkerLog.seek, hmark]
    by_cases hflag : b.edges[r].dst ≥ deleteFlag
    · rw [if_pos hflag] at hout ⊢
      obtain ⟨hle, hrest⟩ := ih (by omega) hout
      exact ⟨by omega, hrest⟩
    · rw [if_neg hflag] at hout ⊢
      cases queue with
      | nil =>
        subst hout
        simp [hsucc]
      | cons top more =>
        dsimp only at hout ⊢
        by_cases htop : top = (chainEdges rest).length + r
        · rw [if_neg (by omega)] at hout
          rw [if_pos htop]
          obtain ⟨hle, hrest⟩ := ih (by omega) hout
          exact ⟨by omega, hrest⟩
        · rw [if_pos (by omega)] at hout
          rw [if_neg htop]
          subst hout
          simp [hsucc]

/-- The iterator stands on block `b` in front of the blocks `rest`, at position
`k` of the list. -/
structure At (tracked : Prop) (stride : Nat) (seg : VegitoSegment) (edges : List Edge)
    (it : EdgeIterator) (b : Block) (rest : List Block) (k : Nat) (queue : List Nat) : Prop where
  segHeader : it.segHeader = seg
  block : it.edgeBlockHeader = b.pointer seg.head
  chain : ChainOk tracked stride seg (b :: rest)
  edges : chainEdges (b :: rest) <+: edges
  remaining : it.remaining ≤ b.edges.length
  position : k = (chainEdges rest).length + it.remaining
  queue : it.deleteOffsets = queue

/-- At a position that is not skipped, or behind the oldest entry. -/
def Settled (it : EdgeIterator) (k : Nat) : Prop := it.remaining = 0 → k = 0

def scanned (it : EdgeIterator) (out : Nat × List Nat × Bool) : EdgeIterator :=
  { it with remaining := out.1, deleteOffsets := out.2.1 }

theorem At.scan {it : EdgeIterator} {k : Nat} (h : At tracked stride seg edges it b rest k queue)
    {out : Nat × List Nat × Bool}
    (hout : EdgeIterator.scanBlock it.segHeader it.edgeBlockHeader it.remaining it.deleteOffsets = out) :
    (out.2.2 = true → 0 < out.1 ∧
      At tracked stride seg edges (scanned it out) b rest
        (MarkerLog.seek (marksOf edges) k queue).1 (MarkerLog.seek (marksOf edges) k queue).2) ∧
    (out.2.2 = false → out.1 = 0 ∧
      MarkerLog.seek (marksOf edges) k queue =
        MarkerLog.seek (marksOf edges) (chainEdges rest).length out.2.1) := by
  rw [h.segHeader, h.block, h.queue] at hout
  obtain ⟨hle, hfound, hnot⟩ := scanBlock_spec h.chain.1 h.edges h.remaining hout
  rw [← h.position] at hfound hnot
  have hrem := h.remaining
  refine ⟨?_, hnot⟩
  intro htrue
  obtain ⟨hpos, hseek⟩ := hfound htrue
  rw [hseek]
  exact ⟨hpos, h.segHeader, h.block, h.chain, h.edges, hle.trans hrem, rfl, rfl⟩

theorem findRound_spec {it : EdgeIterator} {k : Nat}
    (h : At tracked stride seg edges it b rest k queue) :
    (it.findRound.2 = true ∧ it.findRound.1.edgePropSize = it.edgePropSize ∧
      it.findRound.1.edgePropOffset = it.edgePropOffset ∧
      At tracked stride seg edges it.findRound.1 b rest (MarkerLog.seek (marksOf edges) k queue).1
        (MarkerLog.seek (marksOf edges) k queue).2 ∧
      Settled it.findRound.1 (MarkerLog.seek (marksOf edges) k queue).1) ∨
    (it.findRound.2 = false ∧ it.findRound.1.edgePropSize = it.edgePropSize ∧
      ∃ c older queue', rest = c :: older ∧ it.findRound.1.edgePropOffset = c.slot ∧
        At tracked stride seg edges it.findRound.1 c older (chainEdges rest).length queue' ∧
        MarkerLog.seek (marksOf edges) k queue =
          MarkerLog.seek (marksOf edges) (chainEdges rest).length queue') := by
  obtain ⟨hw, hp, hbelow, hsmall, hrest⟩ := h.chain
  have hprev : it.segHeader.getPrevPointer it.edgeBlockHeader = chainPtr seg.head rest := by
    rw [h.segHeader, h.block, hw.getPrevPointer]
  unfold EdgeIterator.findRound
  rw [hprev]
  generalize hout : EdgeIterator.scanBlock it.segHeader it.edgeBlockHeader it.remaining
    it.deleteOffsets = out
  obtain ⟨hfound, hnot⟩ := h.scan hout
  dsimp only
  by_cases htrue : out.2.2 = true
  · obtain ⟨hpos, hat⟩ := hfound htrue
    rw [if_pos htrue]
    refine Or.inl ⟨rfl, rfl, rfl, hat, ?_⟩
    intro hzero
    exact absurd hzero (Nat.pos_iff_ne_zero.mp hpos)
  · obtain ⟨hzero, hseek⟩ := hnot (by simpa using htrue)
    rw [if_neg htrue]
    cases rest with
    | nil =>
      have hnull : chainPtr seg.head [] = 0 := rfl
      rw [if_pos hnull]
      have hend : MarkerLog.seek (marksOf edges) k queue = (0, out.2.1) := by
        rw [hseek]
        rfl
      rw [hend]
      refine Or.inl ⟨rfl, rfl, rfl, ?_, fun _ => rfl⟩
      refine ⟨h.segHeader, h.block, h.chain, h.edges, ?_, ?_, rfl⟩
      · dsimp only
        omega
      · simp [chainEdges, hzero]
    | cons c older =>
      have hne : chainPtr seg.head (c :: older) ≠ 0 := Block.pointer_ne_zero _ _
      have hnum : it.segHeader.getNumEntries (chainPtr seg.head (c :: older)) = c.edges.length := by
        rw [h.segHeader]
        exact hrest.1.getNumEntries
      rw [if_neg hne]
      refine Or.inr ⟨rfl, rfl, c, older, out.2.1, rfl, ?_, ?_, hseek⟩
      · rw [h.segHeader]
        exact seg.getAllocatedEdgeNum_pointer c
      · refine ⟨h.segHeader, rfl, hrest, (List.prefix_append _ _).trans h.edges, ?_, ?_, rfl⟩
        · dsimp only
          rw [hnum]
        · dsimp only
          rw [hnum]
          simp [chainEdges]

theorem findLoop_spec {it : EdgeIterator} {k fuel : Nat}
    (h : At tracked stride seg edges it b rest k queue) (hfuel : rest.length ≤ fuel) :
    Ensures (EdgeIterator.findLoop fuel it)
      (fun it' => ∃ b' rest', b' :: rest' <:+ b :: rest ∧
        At tracked stride seg edges it' b' rest' (MarkerLog.seek (marksOf edges) k queue).1
          (MarkerLog.seek (marksOf edges) k queue).2 ∧
        Settled it' (MarkerLog.seek (marksOf edges) k queue).1 ∧
        it'.edgePropSize = it.edgePropSize ∧
        (it.edgePropOffset = b.slot → it'.edgePropOffset = b'.slot)) Never := by
  induction fuel generalizing it b rest k queue with
  | zero =>
    have hnil : rest = [] := List.eq_nil_of_length_eq_zero (by omega)
    rcases findRound_spec h with ⟨hlast, hsize, hoffset, hat, hsettled⟩ | ⟨-, -, c, older, -, hcons, -⟩
    · simp only [EdgeIterator.findLoop, if_pos hlast]
      exact ⟨b, rest, List.suffix_rfl, hat, hsettled, hsize, fun hs => hoffset.trans hs⟩
    · rw [hnil] at hcons
      exact absurd hcons (by simp)
  | succ fuel ih =>
    rcases findRound_spec h with ⟨hlast, hsize, hoffset, hat, hsettled⟩ |
      ⟨hmore, hsize, c, older, queue', rfl, hoffset, hat, hseek⟩
    · simp only [EdgeIterator.findLoop, if_pos hlast]
      exact ⟨b, rest, List.suffix_rfl, hat, hsettled, hsize, fun hs => hoffset.trans hs⟩
    · have hnot : ¬ it.findRound.2 = true := by simp [hmore]
      simp only [EdgeIterator.findLoop, if_neg hnot, hseek]
      refine (ih hat (by simpa using hfuel)).imp ?_
      rintro it' ⟨b', rest', hsuf, hat', hsettled, hsize', hoffset'⟩
      exact ⟨b', rest', hsuf.trans (List.suffix_cons _ _), hat', hsettled, hsize'.trans hsize,
        fun _ => hoffset' hoffset⟩

theorem findNextValidCursor_spec {it : EdgeIterator} {k fuel : Nat}
    (h : At tracked stride seg edges it b rest k queue) (hfuel : rest.length ≤ fuel) :
    Ensures (it.findNextValidCursor fuel)
      (fun it' => ∃ b' rest', b' :: rest' <:+ b :: rest ∧
        At tracked stride seg edges it' b' rest' (MarkerLog.seek (marksOf edges) k queue).1
          (MarkerLog.seek (marksOf edges) k queue).2 ∧
        Settled it' (MarkerLog.seek (marksOf edges) k queue).1 ∧
        it'.edgePropSize = it.edgePropSize ∧
        (it.edgePropOffset = b.slot → it'.edgePropOffset = b'.slot)) Never := by
  have hne : it.edgeBlockHeader ≠ 0 := by
    rw [h.block]
    exact Block.pointer_ne_zero _ _
  unfold EdgeIterator.findNextValidCursor
  rw [if_neg hne]
  exact findLoop_spec h hfuel

theorem At.rest_length {it : EdgeIterator} {k : Nat}
    (h : At tracked stride seg edges it b rest k queue) : rest.length ≤ chainLimit := by
  have hlen := h.chain.length_le
  have hord := h.chain.order_lt
  unfold chainLimit
  simp only [List.length_cons] at hlen
  omega

theorem toList_spec {c : List Block} {fuel : Nat} {it : EdgeIterator} {k : Nat}
    (h : At tracked stride seg edges it b rest (MarkerLog.seek (marksOf edges) k queue).1
      (MarkerLog.seek (marksOf edges) k queue).2)
    (hsettled : Settled it (MarkerLog.seek (marksOf edges) k queue).1)
    (hoffset : it.edgePropOffset = b.slot) (hsuf : b :: rest <:+ c)
    (hread : ∀ d ∈ c, Readable tracked stride seg (d.pointer seg.head) d)
    (hwidth : it.edgePropSize ≤ stride) (htrack : tracked → it.edgePropSize = stride)
    (hfuel : (MarkerLog.seek (marksOf edges) k queue).1 ≤ fuel) :
    Ensures (it.toList fuel)
      (List.Forall₂ (Reads tracked edges) (MarkerLog.yields (marksOf edges) k queue)) Never := by
  induction fuel generalizing it b rest k queue with
  | zero =>
    have hpos := h.position
    have hzero : it.remaining = 0 := by omega
    have hseek : (MarkerLog.seek (marksOf edges) k queue).1 = 0 := by omega
    rw [MarkerLog.yields_eq_seek]
    generalize MarkerLog.seek (marksOf edges) k queue = out at hseek
    obtain ⟨p, rest'⟩ := out
    dsimp only at hseek
    subst hseek
    simp [EdgeIterator.toList, EdgeIterator.valid, hzero]
  | succ fuel ih =>
    rw [MarkerLog.yields_eq_seek]
    generalize hout : MarkerLog.seek (marksOf edges) k queue = out at h hsettled hfuel
    obtain ⟨p, rest'⟩ := out
    dsimp only at h hsettled hfuel
    have hposition := h.position
    cases p with
    | zero =>
      have hzero : it.remaining = 0 := by omega
      simp [EdgeIterator.toList, EdgeIterator.valid, hzero]
    | succ p =>
      have hne : it.remaining ≠ 0 := fun hz => absurd (hsettled hz) (by omega)
      have hrem := h.remaining
      have hp : p = (chainEdges rest).length + (it.remaining - 1) := by omega
      have hlt : it.remaining - 1 < b.edges.length := by omega
      have hedge := getElem_of_chain h.edges hlt
      rw [← hp] at hedge
      have hb : b ∈ c := hsuf.subset List.mem_cons_self
      -- the property slot of the entry
      obtain ⟨value, hvalue, -, hdata⟩ := (hread b hb).getProperty hlt hwidth htrack
      have hedgeData : it.edgeData = .ok value := by
        unfold EdgeIterator.edgeData
        rw [h.segHeader, hoffset]
        have hidx : b.slot + it.remaining - 1 = b.slot + (it.remaining - 1) := by omega
        rw [hidx]
        exact hvalue
      have hnext : At tracked stride seg edges { it with remaining := it.remaining - 1 } b rest p
          rest' :=
        ⟨h.segHeader, h.block, h.chain, h.edges, by dsimp only; omega, hp, h.queue⟩
      have hneighbor : it.neighbor = b.edges[it.remaining - 1].dst := by
        unfold EdgeIterator.neighbor
        rw [h.segHeader, h.block]
        exact h.chain.1.getEntry _ hlt
      unfold EdgeIterator.toList
      have hvalid : it.valid = true := by simp [EdgeIterator.valid, hne]
      rw [if_pos hvalid, hedgeData]
      change Ensures (it.next >>= fun it' => _) _ _
      refine Ensures.bind (findNextValidCursor_spec hnext h.rest_length) ?_
      rintro it' ⟨b', rest'', hsuf', hat, hsettled', hsize, hoffset'⟩
      have hsize' : it'.edgePropSize = it.edgePropSize := hsize
      refine Ensures.bind (ih hat hsettled' (hoffset' hoffset) (hsuf'.trans hsuf)
        (by rw [hsize']; exact hwidth) (by rw [hsize']; exact htrack) ?_) ?_
      · have hle := MarkerLog.seek_le (marksOf edges) p rest'
        omega
      · intro values hvalues
        exact List.Forall₂.cons ⟨_, hedge, hneighbor, hdata⟩ hvalues

end cursor

/-! ### The end of the epoch -/

theorem findReadEnd_spec (readEpoch total : Nat) (newer : Option EpochEntry)
    (entries : List EpochEntry) (hnewer : ∀ entry, newer = some entry → total = entry.offset) :
    match EdgeIterator.findReadEnd readEpoch newer entries with
    | .nothing => visibleCount readEpoch total entries = 0
    | .whole => newer = none ∧ visibleCount readEpoch total entries = total
    | .upTo offset => visibleCount readEpoch total entries = offset ∧
        ((∃ entry, newer = some entry ∧ entry.offset = offset) ∨
          ∃ entry ∈ entries.dropLast, entry.offset = offset) := by
  induction entries generalizing total newer with
  | nil => rfl
  | cons entry older ih =>
    simp only [visibleCount, EdgeIterator.findReadEnd]
    by_cases he : entry.epoch ≤ readEpoch
    · rw [if_pos he, if_pos he]
      cases newer with
      | none => exact ⟨rfl, rfl⟩
      | some entry' =>
        have htotal := hnewer entry' rfl
        exact ⟨htotal, Or.inl ⟨entry', rfl, rfl⟩⟩
    · rw [if_neg he, if_neg he]
      have hrest := ih entry.offset (some entry) (by
        intro entry' heq
        rw [← Option.some.inj heq])
      cases hend : EdgeIterator.findReadEnd readEpoch (some entry) older with
      | nothing =>
        rw [hend] at hrest
        exact hrest
      | whole =>
        rw [hend] at hrest
        exact absurd hrest.1 (by simp)
      | upTo offset =>
        rw [hend] at hrest
        refine ⟨hrest.1, Or.inr ?_⟩
        have hne : older ≠ [] := by
          rintro rfl
          simp [EdgeIterator.findReadEnd] at hend
        rw [List.dropLast_cons_of_ne_nil hne]
        rcases hrest.2 with ⟨entry', heq, hoff⟩ | ⟨entry', hmem, hoff⟩
        · exact ⟨entry, List.mem_cons_self, by rw [Option.some.inj heq]; exact hoff⟩
        · exact ⟨entry', List.mem_cons_of_mem _ hmem, hoff⟩

theorem walkBack_spec {tracked : Prop} {stride : Nat} {seg : VegitoSegment} {c : List Block}
    {offset fuel : Nat} (h : ChainOk tracked stride seg c) (hpos : 0 < offset)
    (hle : offset ≤ (chainEdges c).length) (hfuel : c.length ≤ fuel) :
    Ensures (EdgeIterator.walkBack seg offset fuel (chainPtr seg.head c))
      (fun pointer => ∃ b rest, b :: rest <:+ c ∧ pointer = b.pointer seg.head ∧
        ChainOk tracked stride seg (b :: rest) ∧ chainEdges (b :: rest) <+: chainEdges c ∧
        (chainEdges rest).length < offset ∧
        offset ≤ (chainEdges rest).length + b.edges.length) Never := by
  induction c generalizing fuel with
  | nil =>
    simp only [chainEdges, List.length_nil] at hle
    omega
  | cons b rest ih =>
    cases fuel with
    | zero => simp at hfuel
    | succ fuel =>
      have hw := h.1
      simp only [chainPtr]
      unfold EdgeIterator.walkBack
      rw [if_neg (Block.pointer_ne_zero _ _), hw.getPrevNumEntries, hw.getPrevPointer]
      simp only [chainEdges, List.length_append] at hle
      by_cases hge : (chainEdges rest).length ≥ offset
      · rw [if_pos hge]
        refine (ih h.2.2.2.2 hge (by simpa using hfuel)).imp ?_
        rintro pointer ⟨b', rest', hsuf, hptr, hchain, hedges, hlt, hle'⟩
        exact ⟨b', rest', hsuf.trans (List.suffix_cons _ _), hptr, hchain,
          hedges.trans (List.prefix_append _ _), hlt, hle'⟩
      · rw [if_neg hge]
        exact ⟨b, rest, List.suffix_rfl, rfl, h, List.prefix_rfl, by omega, hle⟩

/-! ### Reading a list -/

theorem toList_of_invalid {it : EdgeIterator} (h : it.remaining = 0) (fuel : Nat) :
    it.toList fuel = .ok [] := by
  cases fuel <;> simp [EdgeIterator.toList, EdgeIterator.valid, h]

section create
variable {tracked : Prop} {stride : Nat} {seg : VegitoSegment}

/-- A fresh iterator: at its end, or at the newest visible entry that is not skipped. -/
structure Started (tracked : Prop) (stride : Nat) (seg : VegitoSegment) (c : List Block)
    (edges : List Edge) (count edgePropSize : Nat) (it : EdgeIterator) : Prop where
  segHeader : it.segHeader = seg
  size : it.edgePropSize = edgePropSize
  state : (count = 0 ∧ it.remaining = 0) ∨
    ∃ b rest, b :: rest <:+ c ∧
      At tracked stride seg edges it b rest (MarkerLog.seek (marksOf edges) count []).1
        (MarkerLog.seek (marksOf edges) count []).2 ∧
      Settled it (MarkerLog.seek (marksOf edges) count []).1 ∧ it.edgePropOffset = b.slot

/-- From the block of the newest visible entry, the cursor moves to the first
entry to yield. -/
theorem start_spec {edges : List Edge} {b : Block} {rest c : List Block}
    {count remaining edgePropSize : Nat} (hsuf : b :: rest <:+ c)
    (hchain : ChainOk tracked stride seg (b :: rest)) (hedges : chainEdges (b :: rest) <+: edges)
    (hrem : remaining ≤ b.edges.length) (hcount : count = (chainEdges rest).length + remaining) :
    Ensures (do
        let it ← EdgeIterator.findNextValidCursor
          { EdgeIterator.empty seg edgePropSize with
            edgeBlockHeader := b.pointer seg.head
            remaining := remaining } chainLimit
        .ok { it with edgePropOffset := seg.getAllocatedEdgeNum it.edgeBlockHeader })
      (Started tracked stride seg c edges count edgePropSize) Never := by
  have hat : At tracked stride seg edges
      { EdgeIterator.empty seg edgePropSize with
        edgeBlockHeader := b.pointer seg.head
        remaining := remaining } b rest count [] :=
    ⟨rfl, rfl, hchain, hedges, hrem, hcount, rfl⟩
  refine Ensures.bind (findNextValidCursor_spec hat hat.rest_length) ?_
  rintro it ⟨b', rest', hsuf', hat', hsettled, hsize, -⟩
  refine ⟨hat'.segHeader, hsize, Or.inr ⟨b', rest', hsuf'.trans hsuf, ?_,
    fun hz => hsettled hz, ?_⟩⟩
  · exact ⟨hat'.segHeader, hat'.block, hat'.chain, hat'.edges, hat'.remaining, hat'.position,
      hat'.queue⟩
  · dsimp only
    rw [hat'.block, seg.getAllocatedEdgeNum_pointer]

theorem readEnd_spec {b : Block} {rest : List Block} {log : List LogEntry} {table : EpochBlock}
    (hchain : ChainOk tracked stride seg (b :: rest))
    (hedges : chainEdges (b :: rest) = log.map LogEntry.edge) (htable : EpochOk table log) (readEpoch : Nat) :
    match EdgeIterator.findReadEnd readEpoch none table.entries with
    | .nothing => (upToEpoch readEpoch log).length = 0
    | .whole => (upToEpoch readEpoch log).length = (chainEdges rest).length + b.edges.length
    | .upTo offset => (upToEpoch readEpoch log).length = offset ∧
        Ensures (EdgeIterator.walkBack seg offset chainLimit (b.pointer seg.head))
          (fun pointer => ∃ b' rest', b' :: rest' <:+ b :: rest ∧ pointer = b'.pointer seg.head ∧
            seg.getPrevNumEntries pointer = (chainEdges rest').length ∧
            ChainOk tracked stride seg (b' :: rest') ∧ chainEdges (b' :: rest') <+: log.map LogEntry.edge ∧
            (chainEdges rest').length < offset ∧ offset ≤ (chainEdges rest').length + b'.edges.length) Never := by
  have hcount := htable.count readEpoch
  have hlen : log.length = (chainEdges rest).length + b.edges.length := by
    have hlen := congrArg List.length hedges
    simp only [chainEdges, List.length_append, List.length_map] at hlen
    exact hlen.symm
  have hend := findReadEnd_spec readEpoch log.length none table.entries (by simp)
  cases hcase : EdgeIterator.findReadEnd readEpoch none table.entries with
  | nothing =>
    rw [hcase] at hend
    exact hcount.symm.trans hend
  | whole =>
    rw [hcase] at hend
    exact (hcount.symm.trans hend.2).trans hlen
  | upTo offset =>
    rw [hcase] at hend
    obtain ⟨hoff, hentry⟩ := hend
    rw [hcount] at hoff
    obtain ⟨entry, hmem, heq⟩ := hentry.resolve_left (by simp)
    have hpos : 0 < offset := by
      rw [← heq]
      exact htable.offsets entry hmem
    have hle : offset ≤ (chainEdges (b :: rest)).length := by
      have hfilter : (upToEpoch readEpoch log).length ≤ log.length := List.length_filter_le _ _
      rw [hedges, List.length_map]
      omega
    have hfuel : (b :: rest).length ≤ chainLimit := by
      have hlen' := hchain.length_le
      have hord := hchain.order_lt
      unfold chainLimit
      omega
    refine ⟨hoff, (walkBack_spec hchain hpos hle hfuel).mono ?_ fun _ h => h⟩
    rintro pointer ⟨b', rest', hsuf, rfl, hch, hpre, hlt, hle'⟩
    rw [hedges] at hpre
    exact ⟨b', rest', hsuf, rfl, hch.1.getPrevNumEntries, hch, hpre, hlt, hle'⟩

theorem create_spec {b : Block} {rest : List Block} {log : List LogEntry} {table : EpochBlock}
    (hchain : ChainOk tracked stride seg (b :: rest))
    (hedges : chainEdges (b :: rest) = log.map LogEntry.edge) (htable : EpochOk table log)
    (edgePropSize readEpoch : Nat) :
    Ensures (EdgeIterator.create seg (b.pointer seg.head) table b.edges.length edgePropSize readEpoch)
      (Started tracked stride seg (b :: rest) (log.map LogEntry.edge)
        (upToEpoch readEpoch log).length edgePropSize) Never := by
  have hend := readEnd_spec hchain hedges htable readEpoch
  unfold EdgeIterator.create
  dsimp only
  cases hcase : EdgeIterator.findReadEnd readEpoch none table.entries with
  | nothing =>
    rw [hcase] at hend
    exact ⟨rfl, rfl, Or.inl ⟨hend, rfl⟩⟩
  | whole =>
    rw [hcase] at hend
    exact start_spec List.suffix_rfl hchain (by rw [hedges]) (Nat.le_refl _) hend
  | upTo offset =>
    rw [hcase] at hend
    obtain ⟨hoff, hwalk⟩ := hend
    refine Ensures.bind hwalk ?_
    rintro pointer ⟨b', rest', hsuf, rfl, hnum, hch, hpre, hlt, hle⟩
    rw [hnum]
    exact start_spec hsuf hch hpre (by omega) (by omega)

end create

theorem locateSegment_eq (g : SegGraph) (segId eLabel : Nat) (dir : Dir) :
    locateSegment g segId eLabel dir = g.locateSegment segId eLabel dir := rfl

/-- Reading a list at an epoch stops at the positions of `MarkerLog.yields` among
the entries up to that epoch. -/
theorem readAdjList_spec {tracked : Nat → Prop} {stride : Nat → Nat} {g : SegGraph}
    {own : Nat → Option Owner} {log : Log}
    (h : GraphInv tracked stride g own log fun _ _ _ => False) (v l : Nat) (d : Dir)
    {edgePropSize : Nat} (hwidth : edgePropSize ≤ stride l)
    (htrack : tracked l → edgePropSize = stride l) (readEpoch : Nat) :
    Ensures (readAdjList g v l d edgePropSize readEpoch)
      (List.Forall₂ (Reads (tracked l) ((log v l d).map LogEntry.edge))
        (MarkerLog.yields (marksOf ((log v l d).map LogEntry.edge))
          (upToEpoch readEpoch (log v l d)).length []))
      Never := by
  have hidx : v % vertexPerSeg < vertexPerSeg := Nat.mod_lt _ (by unfold vertexPerSeg; omega)
  have hv := vertexOf_div_mod v
  have hempty : ∀ seg, log v l d = [] → Ensures
      (EdgeIterator.toList seg.blockSize (EdgeIterator.empty seg edgePropSize))
      (List.Forall₂ (Reads (tracked l) ((log v l d).map LogEntry.edge))
        (MarkerLog.yields (marksOf ((log v l d).map LogEntry.edge))
          (upToEpoch readEpoch (log v l d)).length [])) Never := by
    intro seg hnil
    rw [hnil, toList_of_invalid rfl]
    exact List.Forall₂.nil
  unfold readAdjList getAdjList getEdgesInSeg
  rw [locateSegment_eq]
  dsimp only
  by_cases h0 : g.locateSegment (v / vertexPerSeg) l d = 0
  · rw [if_pos h0]
    have hnil := h.absent _ _ _ h0 _ hidx
    rw [hv] at hnil
    exact hempty _ hnil
  · rw [if_neg h0]
    obtain ⟨C, hinv, hlists⟩ := h.holds _ _ _ h0
    have hlist := hlists _ hidx
    dsimp only at hlist
    rw [hv] at hlist
    generalize g.segments (g.locateSegment (v / vertexPerSeg) l d) = seg at hinv hlist ⊢
    by_cases hnil : log v l d = []
    · rw [if_pos (Or.inl (hlist.noTable hnil))]
      exact hempty _ hnil
    · have htable := hlist.table hnil
      have hregion := hinv.region (v % vertexPerSeg)
      have hchain := hinv.chain (v % vertexPerSeg)
      have hbound := hinv.edges_length_le hidx
      have hbytes := hinv.allocated_bytes
      have hread : ∀ c ∈ C (v % vertexPerSeg),
          Readable (tracked l) (stride l) seg (c.pointer seg.head) c :=
        fun c hc => hinv.readable hc
      cases hC : C (v % vertexPerSeg) with
      | nil =>
        have hedges := hlist.edges
        rw [hC] at hedges
        simp only [chainEdges] at hedges
        exact absurd (List.map_eq_nil_iff.mp hedges.symm) hnil
      | cons b rest =>
        rw [hC] at hregion hchain hread
        have hedges := hlist.edges
        rw [hC] at hedges
        have hptr : seg.regionPtrs (v % vertexPerSeg) = b.pointer seg.head := hregion
        have hnum := hchain.1.getNumEntries
        have hne := hlist.head (fun hf => hf) b rest hC
        rw [hptr, if_neg (by
          rintro (hz | hz)
          · exact htable.1 hz
          · exact Block.pointer_ne_zero _ _ hz), hnum, if_neg (by simpa using hne)]
        refine Ensures.bind (create_spec hchain hedges htable.2.2 edgePropSize readEpoch) ?_
        intro it hit
        rw [hit.segHeader]
        rcases hit.state with ⟨hzero, hrem⟩ | ⟨b', rest', hsuf, hat, hsettled, hoffset⟩
        · rw [toList_of_invalid hrem, hzero]
          exact List.Forall₂.nil
        · refine toList_spec hat hsettled hoffset hsuf hread (by rw [hit.size]; exact hwidth)
            (by rw [hit.size]; exact htrack) ?_
          have hle := MarkerLog.seek_le (marksOf ((log v l d).map LogEntry.edge))
            (upToEpoch readEpoch (log v l d)).length []
          have hfilter : (upToEpoch readEpoch (log v l d)).length ≤ (log v l d).length :=
            List.length_filter_le _ _
          rw [hlist.edges, List.length_map] at hbound
          omega

end Gart.Fragment
