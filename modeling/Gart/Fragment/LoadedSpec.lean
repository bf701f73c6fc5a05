import Gart.Fragment.HeldList
import Gart.Fragment.LoadedReader
import Gart.Fragment.Snapshot
import Gart.Seggraph.Recycling

/-!
# Reading while the writer goes on

Behind its first loads a reader has an epoch table and an edge block. From there on it stays in the part of the list
that is older than the end of its epoch, which no step of the writer changes. So it reads what it would read if the
writer stood still.
-/

namespace Gart.Fragment
open Gart.ByteMemory Gart.Outcome Gart.Seggraph Gart.Loads SegGraph

/-! ### What two states have in common -/

/-- What a reader loads of a block, below the position `count` of the list. -/
structure KeptBlock (stride count : Nat) (seg seg' : VegitoSegment) (edgeBlock : Nat) (b : Block) (rest : List Block) :
    Prop where
  prevNum : seg'.getPrevNumEntries edgeBlock = seg.getPrevNumEntries edgeBlock
  prev : seg'.getPrevPointer edgeBlock = seg.getPrevPointer edgeBlock
  entry : ∀ i, i < b.edges.length → (chainEdges rest).length + i < count →
    seg'.getEntry edgeBlock i = seg.getEntry edgeBlock i
  data : ∀ i, i < b.edges.length → (chainEdges rest).length + i < count →
    seg'.getProperty (b.slot + i) stride = seg.getProperty (b.slot + i) stride
  older : ∀ c older, rest = c :: older →
    seg'.getNumEntries (seg.getPrevPointer edgeBlock) = seg.getNumEntries (seg.getPrevPointer edgeBlock)

section kept
variable {r : Watched} {g g' : SegGraph} {f : FoundBlock} {edges edges' : List Edge} {b : Block} {rest : List Block}

theorem HeldBlock.getElem_eq (h : HeldBlock r g f edges) (h' : HeldBlock r g' f edges') {i : Nat}
    (hi : (chainEdges f.rest).length + i < r.snapshot.length) : edges'[i]? = edges[i]? := by
  have hlen : (chainEdges f.rest).length + i < r.edges.length := by
    rw [Watched.edges, List.length_map]
    exact hi
  have hat : ∀ {more : List Edge}, r.edges <+: chainEdges f.rest ++ more →
      more[i]? = r.edges[(chainEdges f.rest).length + i]? := by
    rintro more ⟨later, heq⟩
    have hmore : (chainEdges f.rest ++ more)[(chainEdges f.rest).length + i]? = more[i]? := by
      rw [List.getElem?_append_right (Nat.le_add_right _ _), Nat.add_sub_cancel_left]
    rw [← hmore, ← heq, List.getElem?_append_left hlen]
  rw [hat h.snapshot, hat h'.snapshot]

theorem HeldBlock.block_of_suffix (h : HeldBlock r g f edges) (h' : HeldBlock r g' f edges')
    (hsuf : b :: rest <:+ f.chain edges) : ∃ b', b' :: rest <:+ f.chain edges' ∧ b'.slot = b.slot ∧
      ∀ i, (chainEdges rest).length + i < r.snapshot.length → b'.edges[i]? = b.edges[i]? := by
  rcases List.suffix_cons_iff.mp hsuf with heq | hsuf
  · obtain ⟨rfl, rfl⟩ := List.cons.inj heq
    exact ⟨⟨f.slot, f.order, edges'⟩, List.suffix_rfl, rfl, fun i hi => h.getElem_eq h' hi⟩
  · exact ⟨b, hsuf.trans (List.suffix_cons _ _), rfl, fun i _ => rfl⟩

theorem HeldBlock.chain_of_suffix (h : HeldBlock r g f edges) (hsuf : b :: rest <:+ f.chain edges) :
    ChainOk True r.stride (g.segments f.segment) (b :: rest) := by
  obtain ⟨newer, heq⟩ := hsuf
  have hchain := h.chain
  rw [← heq] at hchain
  exact hchain.of_append

theorem HeldBlock.readable (h : HeldBlock r g f edges) (hsuf : b :: rest <:+ f.chain edges) :
    Readable True r.stride (g.segments f.segment) (b.pointer f.segment) b := by
  have hchain := h.chain_of_suffix hsuf
  obtain ⟨total, hfits, hstops⟩ := h.fits
  refine ⟨by rw [h.head], ⟨_, _, hchain.1⟩, hchain.2.1, total, ?_, hstops b (hsuf.subset List.mem_cons_self)⟩
  rw [h.size]
  exact hfits

theorem HeldBlock.kept (h : HeldBlock r g f edges) (h' : HeldBlock r g' f edges') (hsuf : b :: rest <:+ f.chain edges) :
    KeptBlock r.stride r.snapshot.length (g.segments f.segment) (g'.segments f.segment)
        (b.pointer f.segment) b rest := by
  obtain ⟨b', hsuf', hslot, hedges⟩ := h.block_of_suffix h' hsuf
  have hchain := h.chain_of_suffix hsuf
  have hchain' := h'.chain_of_suffix hsuf'
  have hread := h.readable hsuf
  have hread' := h'.readable hsuf'
  have hptr : b'.pointer f.segment = b.pointer f.segment := by
    unfold Block.pointer
    rw [hslot]
  have hw := hchain.1
  have hw' := hchain'.1
  have hprev := hw.getPrevPointer
  have hprev' := hw'.getPrevPointer
  have hprevNum := hw.getPrevNumEntries
  have hprevNum' := hw'.getPrevNumEntries
  rw [h.head] at hprev hprevNum
  rw [h'.head, hptr] at hprev' hprevNum'
  have hat : ∀ i, (chainEdges rest).length + i < r.snapshot.length → (hi : i < b.edges.length) →
      ∃ hi' : i < b'.edges.length, b'.edges[i] = b.edges[i] := by
    intro i hcount hi
    have heq := hedges i hcount
    rw [List.getElem?_eq_getElem hi] at heq
    obtain ⟨hi', heq⟩ := List.getElem?_eq_some_iff.mp heq
    exact ⟨hi', heq⟩
  refine ⟨hprevNum'.trans hprevNum.symm, hprev'.trans hprev.symm, fun i hi hcount => ?_, fun i hi hcount => ?_,
    fun c older hrest => ?_⟩
  · obtain ⟨hi', heq⟩ := hat i hcount hi
    have hentry := hw.getEntry i hi
    have hentry' := hw'.getEntry i hi'
    rw [h.head] at hentry
    rw [h'.head, hptr, heq] at hentry'
    exact hentry'.trans hentry.symm
  · obtain ⟨hi', heq⟩ := hat i hcount hi
    obtain ⟨value, hvalue, -, hdata⟩ := hread.getProperty hi (Nat.le_refl _) fun _ => rfl
    obtain ⟨value', hvalue', -, hdata'⟩ := hread'.getProperty hi' (Nat.le_refl _) fun _ => rfl
    rw [hslot] at hvalue'
    rw [hvalue, hvalue', hdata trivial, hdata' trivial, heq]
  · subst hrest
    have hnum := hchain.2.2.2.2.1.getNumEntries
    have hnum' := hchain'.2.2.2.2.1.getNumEntries
    rw [h.head] at hnum
    rw [h'.head] at hnum'
    rw [hprev]
    exact hnum'.trans hnum.symm

end kept

/-! ### The loads of an iterator -/

/-- The iterator stands in the snapshot, in the state `g`. -/
structure On (r : Watched) (g : SegGraph) (f : FoundBlock) (edges : List Edge) (c : Cursor) (b : Block)
    (rest : List Block)
    (k : Nat) (queue : List Nat) : Prop where
  segment : c.segment = f.segment
  size : c.edgePropSize = r.stride
  at_ : At True r.stride (g.segments f.segment) (chainEdges (f.chain edges)) (c.iterator g) b rest k queue
  suffix : b :: rest <:+ f.chain edges
  count : k ≤ r.snapshot.length

section within
variable {r : Watched} {g : SegGraph} {f : FoundBlock} {edges : List Edge} {b : Block} {rest : List Block} {k : Nat}
  {queue : List Nat} {c : Cursor} {V : Writing → Prop}

theorem On.block (hon : On r g f edges c b rest k queue) (h : HeldBlock r g f edges) :
    c.edgeBlockHeader = b.pointer f.segment := by
  have hblock := hon.at_.block
  rw [h.head] at hblock
  exact hblock

theorem On.remaining (hon : On r g f edges c b rest k queue) : c.remaining ≤ b.edges.length := hon.at_.remaining

theorem On.position (hon : On r g f edges c b rest k queue) : k = (chainEdges rest).length + c.remaining :=
  hon.at_.position

variable (h : HeldBlock r g f edges) (hV : ∀ w, V w → ∃ edges', HeldBlock r w.graph f edges')
include h hV

theorem within_scanBlock (hsuf : b :: rest <:+ f.chain edges) {n : Nat} (hn : n ≤ b.edges.length)
    (hcount : (chainEdges rest).length + n ≤ r.snapshot.length) (offsets : List Nat) :
    Within Writing.graph V g (Cursor.scanBlock f.segment (b.pointer f.segment) n offsets) := by
  induction n generalizing offsets with
  | zero => exact within_pure _
  | succ n ih =>
    have hrest := ih (by omega) (by omega)
    unfold Cursor.scanBlock
    refine within_get_bind (fun w hw => ?_) ?_
    · obtain ⟨edges', h'⟩ := hV w hw
      exact (h.kept h' hsuf).entry n (by omega) (by omega)
    · refine within_ite (fun _ => hrest _) fun _ => ?_
      cases offsets with
      | nil => exact within_pure _
      | cons top more =>
        refine within_get_bind (fun w hw => ?_) (within_ite (fun _ => within_pure _) fun _ => hrest _)
        obtain ⟨edges', h'⟩ := hV w hw
        exact (h.kept h' hsuf).prevNum

theorem within_findRound (hon : On r g f edges c b rest k queue) : Within Writing.graph V g c.findRound := by
  have hptr := hon.block h
  have hposition := hon.position
  have hcount := hon.count
  unfold Cursor.findRound
  rw [hon.segment, hptr]
  refine (within_scanBlock h hV hon.suffix hon.remaining (by omega) _).bind ?_
  refine within_ite (fun _ => within_pure _) fun _ => within_get_bind (fun w hw => ?_) (within_ite
    (fun _ => within_pure _) fun hfirst =>
      within_get_bind (fun w hw => ?_) (within_get_bind (fun w hw => ?_) (within_pure _)))
  · obtain ⟨edges', h'⟩ := hV w hw
    exact (h.kept h' hon.suffix).prev
  · obtain ⟨edges', h'⟩ := hV w hw
    have hprev := (h.chain_of_suffix hon.suffix).1.getPrevPointer
    rw [h.head] at hprev
    cases rest with
    | nil => exact absurd hprev hfirst
    | cons older more => exact (h.kept h' hon.suffix).older older more rfl
  · obtain ⟨edges', h'⟩ := hV w hw
    simp only [VegitoSegment.getAllocatedEdgeNum, h.head, h'.head]

omit h hV in
theorem On.findRound (hon : On r g f edges c b rest k queue) (hlast : (c.findRound.eval g).2 ≠ true) :
    ∃ b' rest' k' queue', rest = b' :: rest' ∧ On r g f edges (c.findRound.eval g).1 b' rest' k' queue' := by
  obtain ⟨hround, hseg⟩ := Cursor.eval_findRound g c
  have hspec := findRound_spec hon.at_
  rw [← hround] at hspec
  rcases hspec with ⟨htrue, -⟩ | ⟨-, hsize, b', rest', queue', hrest, -, hat, -⟩
  · exact absurd htrue hlast
  · refine ⟨b', rest', _, queue', hrest, hseg.trans hon.segment, hsize.trans hon.size, hat, ?_, ?_⟩
    · rw [← hrest]
      exact (List.suffix_cons _ _).trans hon.suffix
    · have hposition := hon.position
      have hcount := hon.count
      omega

theorem within_findLoop (hon : On r g f edges c b rest k queue) (fuel : Nat) :
    Within Writing.graph V g (Cursor.findLoop fuel c) := by
  induction fuel generalizing c b rest k queue with
  | zero =>
    unfold Cursor.findLoop
    exact (within_findRound h hV hon).bind (within_ite (fun _ => within_pure _) fun _ => within_pure _)
  | succ fuel ih =>
    unfold Cursor.findLoop
    refine (within_findRound h hV hon).bind (within_ite (fun _ => within_pure _) fun hlast => ?_)
    obtain ⟨b', rest', k', queue', -, hon'⟩ := hon.findRound hlast
    exact ih hon'

theorem within_findNextValidCursor (hon : On r g f edges c b rest k queue) (fuel : Nat) :
    Within Writing.graph V g (c.findNextValidCursor fuel) := by
  unfold Cursor.findNextValidCursor
  exact within_ite (fun _ => within_pure _) fun _ => within_findLoop h hV hon fuel

omit h hV in
theorem On.findNextValidCursor (hon : On r g f edges c b rest k queue) :
    ∃ c', (c.findNextValidCursor chainLimit).eval g = .ok c' ∧
        ∃ b' rest' k' queue', On r g f edges c' b' rest' k' queue' ∧
      Settled (c'.iterator g) k' ∧ (c.edgePropOffset = b.slot → c'.edgePropOffset = b'.slot) := by
  obtain ⟨hmap, hseg⟩ := Cursor.eval_findNextValidCursor g c chainLimit
  obtain ⟨it, hit, b', rest', hsuf, hat, hsettled, hsize, hoffset⟩ :=
    (findNextValidCursor_spec hon.at_ hon.at_.rest_length).exists_ok
  rw [hit] at hmap
  cases hfound : (c.findNextValidCursor chainLimit).eval g with
  | error fault =>
    rw [hfound] at hmap
    cases hmap
  | ok c' =>
    rw [hfound] at hmap
    have hsame : c'.iterator g = it := Except.ok.inj hmap
    subst hsame
    have hle := MarkerLog.seek_le (marksOf (chainEdges (f.chain edges))) k queue
    exact ⟨c', rfl, b', rest', _, _, ⟨(hseg c' hfound).trans hon.segment, hsize.trans hon.size, hat,
      hsuf.trans hon.suffix, hle.trans hon.count⟩, hsettled, hoffset⟩

theorem within_settle (hon : On r g f edges c b rest k queue) : Within Writing.graph V g c.settle := by
  unfold Cursor.settle
  refine (within_findNextValidCursor h hV hon chainLimit).bind ?_
  obtain ⟨c', hok, b', rest', k', queue', hon', -⟩ := hon.findNextValidCursor
  rw [hok]
  refine within_get_bind (fun w hw => ?_) (within_pure _)
  obtain ⟨edges', h'⟩ := hV w hw
  simp only [VegitoSegment.getAllocatedEdgeNum, hon'.segment, h.head, h'.head]

theorem within_toList (hon : On r g f edges c b rest k queue) (hsettled : Settled (c.iterator g) k)
    (hoffset : c.edgePropOffset = b.slot) (fuel : Nat) : Within Writing.graph V g (Cursor.toList fuel c) := by
  induction fuel generalizing c b rest k queue with
  | zero =>
    unfold Cursor.toList
    exact within_ite (fun _ => within_pure _) fun _ => within_pure _
  | succ fuel ih =>
    unfold Cursor.toList
    refine within_ite (fun hvalid => ?_) fun _ => within_pure _
    have hne : c.remaining ≠ 0 := by simpa [Cursor.valid] using hvalid
    have hposition := hon.position
    have hremaining := hon.remaining
    have hcount := hon.count
    have hptr := hon.block h
    have hnext : On r g f edges { c with remaining := c.remaining - 1 } b rest (k - 1) queue := by
      refine ⟨hon.segment, hon.size, ?_, hon.suffix, by omega⟩
      have hat := hon.at_
      refine ⟨hat.segHeader, hat.block, hat.chain, hat.edges, ?_, ?_, hat.queue⟩
      · show c.remaining - 1 ≤ _
        omega
      · show k - 1 = _ + (c.remaining - 1)
        omega
    have hindex : c.edgePropOffset + c.remaining - 1 = b.slot + (c.remaining - 1) := by omega
    refine Within.bind (within_get fun w hw => ?_) ?_
    · obtain ⟨edges', h'⟩ := hV w hw
      rw [hindex, hon.segment, hon.size]
      exact (h.kept h' hon.suffix).data _ (by omega) (by omega)
    · cases c.edgeData.eval g with
      | error fault => exact within_pure _
      | ok data =>
        refine Within.bind (within_get fun w hw => ?_) ?_
        · obtain ⟨edges', h'⟩ := hV w hw
          rw [hon.segment, hptr]
          exact (h.kept h' hon.suffix).entry _ (by omega) (by omega)
        · refine Within.bind (within_findNextValidCursor h hV hnext chainLimit) ?_
          obtain ⟨c', hok, b', rest', k', queue', hon', hsettled', hoffset'⟩ := hnext.findNextValidCursor
          have hok' : c.next.eval g = .ok c' := hok
          rw [hok']
          exact (ih hon' hsettled' (hoffset' hoffset)).bind (within_pure _)

omit h hV in
theorem tableEntry_of_suffix {g' : SegGraph} {table i : Nat}
    (hsuf : (g.epochBlocks table).entries <:+ (g'.epochBlocks table).entries)
    (hi : i < (g.epochBlocks table).entries.length) : Cursor.tableEntry table i g' = Cursor.tableEntry table i g := by
  obtain ⟨newer, heq⟩ := hsuf
  unfold Cursor.tableEntry
  rw [← heq, List.reverse_append, List.getElem?_append_left (by rw [List.length_reverse]; exact hi)]

omit h hV in
theorem within_findReadEnd {table readEpoch : Nat}
    (hT : ∀ w, V w → (g.epochBlocks table).entries <:+ (w.graph.epochBlocks table).entries) {left : Nat}
    (hleft : left ≤ (g.epochBlocks table).entries.length) :
    Within Writing.graph V g (Cursor.findReadEnd table readEpoch (g.epochBlocks table).entries.length left) := by
  induction left with
  | zero => exact within_pure _
  | succ left ih =>
    unfold Cursor.findReadEnd
    refine within_get_bind (fun w hw => ?_) (within_ite (fun _ => within_ite (fun _ => within_pure _) fun hmore =>
      within_get_bind (fun w hw => ?_) (within_pure _)) fun _ => ih (by omega))
    · rw [tableEntry_of_suffix (hT w hw) (by omega)]
    · rw [tableEntry_of_suffix (hT w hw) (by omega)]

theorem within_walkBack {older : List Block} (hsuf : older <:+ f.chain edges) (offset fuel : Nat) :
    Within Writing.graph V g (Cursor.walkBack f.segment offset fuel (chainPtr f.segment older)) := by
  induction fuel generalizing older with
  | zero => exact within_pure _
  | succ fuel ih =>
    unfold Cursor.walkBack
    refine within_ite (fun _ => within_pure _) fun hne => ?_
    cases older with
    | nil => exact absurd rfl hne
    | cons b rest =>
      refine within_get_bind (fun w hw => ?_) (within_ite (fun _ => within_get_bind (fun w hw => ?_) ?_) fun _ =>
        within_pure _)
      · obtain ⟨edges', h'⟩ := hV w hw
        exact (h.kept h' hsuf).prevNum
      · obtain ⟨edges', h'⟩ := hV w hw
        exact (h.kept h' hsuf).prev
      · have hprev := (h.chain_of_suffix hsuf).1.getPrevPointer
        rw [h.head] at hprev
        show Within _ V g (Cursor.walkBack f.segment offset fuel
          ((g.segments f.segment).getPrevPointer (b.pointer f.segment)))
        rw [hprev]
        exact ih ((List.suffix_cons _ _).trans hsuf)

end within

/-! ### What the reader gets -/

/-- The edges of the snapshot that no marker of the snapshot deletes, newest first. -/
def snapshotValues (r : Watched) : List (Nat × Bytes) :=
  (MarkerLog.yields (marksOf r.edges) r.snapshot.length []).filterMap (edgeAt r.edges)

theorem reads_snapshot {r : Watched} {edges : List Edge} {values : List (Nat × Bytes)} (hedges : r.edges <+: edges)
    (h : List.Forall₂ (Reads True edges) (MarkerLog.yields (marksOf edges) r.snapshot.length []) values) :
    values = snapshotValues r := by
  have hget : ∀ j, j < r.snapshot.length → edges[j]? = r.edges[j]? := by
    intro j hj
    obtain ⟨later, rfl⟩ := hedges
    exact List.getElem?_append_left (by rw [Watched.edges, List.length_map]; exact hj)
  have hmarks : ∀ j, j < r.snapshot.length → marksOf edges j = marksOf r.edges j := by
    intro j hj
    simp only [marksOf, hget j hj]
  rw [MarkerLog.yields_congr hmarks] at h
  have hsome := reads_eq h
  have hvalues : values = (values.map some).filterMap id := by simp
  rw [hvalues, hsome, List.filterMap_map]
  refine List.filterMap_congr fun p hp => ?_
  simp only [Function.comp_apply, id_eq, edgeAt, hget p (MarkerLog.mem_yields hp).1]

/-- A program that no step of the writer can disturb, and that yields the snapshot. -/
structure YieldsSnapshot (r : Watched) (g : SegGraph) (V : Writing → Prop)
    (p : Loads SegGraph (Except Fault (List (Nat × Bytes)))) : Prop where
  within : Within Writing.graph V g p
  eval : p.eval g = .ok (snapshotValues r)

theorem YieldsSnapshot.bind {r : Watched} {g : SegGraph} {V : Writing → Prop} {α : Type} {p : Loads SegGraph α}
    {q : α → Loads SegGraph (Except Fault (List (Nat × Bytes)))} (h : Within Writing.graph V g p)
    (hq : YieldsSnapshot r g V (q (p.eval g))) : YieldsSnapshot r g V (p >>= q) :=
  ⟨h.bind hq.within, (eval_bind g p q).trans hq.eval⟩

theorem ChainOk.edges_le_stop {stride : Nat} {seg : VegitoSegment} {b : Block} {rest : List Block}
    (h : ChainOk True stride seg (b :: rest)) : (chainEdges (b :: rest)).length ≤ b.stop := by
  induction rest generalizing b with
  | nil =>
    have hroom := h.1.room
    simp only [chainEdges, List.nil_append, Block.stop]
    omega
  | cons d rest ih =>
    have hroom := h.1.room
    have hrest := ih h.2.2.2.2
    have hbelow := (h.2.2.1 d List.mem_cons_self).1
    rw [chainEdges, List.length_append]
    unfold Block.stop at *
    omega

theorem chainEdges_of_suffix {older c : List Block} (h : older <:+ c) : chainEdges older <+: chainEdges c := by
  obtain ⟨newer, rfl⟩ := h
  induction newer with
  | nil => exact List.prefix_rfl
  | cons b newer ih => exact ih.trans (List.prefix_append _ _)

section reader
variable {r : Watched} {g : SegGraph} {f : FoundBlock} {edges : List Edge} {b : Block} {rest : List Block}
  {V : Writing → Prop}

theorem HeldBlock.count_le (h : HeldBlock r g f edges) :
    r.snapshot.length ≤ (chainEdges f.rest).length + edges.length := by
  have hle := h.snapshot.length_le
  rw [Watched.edges, List.length_map, List.length_append] at hle
  exact hle

theorem HeldBlock.count_le_blockSize (h : HeldBlock r g f edges) :
    r.snapshot.length ≤ (g.segments f.segment).blockSize := by
  obtain ⟨total, hfits, hstops⟩ := h.fits
  have hstop := hstops _ List.mem_cons_self
  have hedges := ChainOk.edges_le_stop h.chain
  have hcount := h.count_le
  rw [chainEdges, List.length_append] at hedges
  have hsize : (g.segments f.segment).blockSize = 2 ^ f.size := by
    rw [← h.size]
    rfl
  unfold Fits at hfits
  dsimp only at hedges
  omega

theorem settle_snapshot (h : HeldBlock r g f edges) (hV : ∀ w, V w → ∃ edges', HeldBlock r w.graph f edges')
    (hsuf : b :: rest <:+ f.chain edges) {n : Nat} (hn : n ≤ b.edges.length)
    (hcount : r.snapshot.length = (chainEdges rest).length + n) :
    YieldsSnapshot r g V (Cursor.settle { Cursor.empty f.segment r.stride with
      edgeBlockHeader := b.pointer f.segment, remaining := n } >>= Loaded.readAll) := by
  have hchain := h.chain_of_suffix hsuf
  have hedges : chainEdges (b :: rest) <+: chainEdges (f.chain edges) := chainEdges_of_suffix hsuf
  generalize hc : { Cursor.empty f.segment r.stride with
    edgeBlockHeader := b.pointer f.segment, remaining := n } = c
  have hiterator : c.iterator g = { EdgeIterator.empty (g.segments f.segment) r.stride with
      edgeBlockHeader := b.pointer (g.segments f.segment).head, remaining := n } := by
    rw [← hc, h.head]
    rfl
  have hsegment : c.segment = f.segment := by rw [← hc]; rfl
  have hon : On r g f edges c b rest r.snapshot.length [] := by
    refine ⟨hsegment, by rw [← hc]; rfl, ?_, hsuf, Nat.le_refl _⟩
    rw [hiterator]
    exact ⟨rfl, rfl, hchain, hedges, hn, hcount, rfl⟩
  refine ⟨(within_settle h hV hon).bind ?_, ?_⟩
  · -- the iterator is at an entry of the snapshot, or at its end
    obtain ⟨c', hok, b', rest', k', queue', hon', hsettled, -⟩ := hon.findNextValidCursor
    have hsettle : c.settle.eval g = .ok { c' with
        edgePropOffset := (g.segments c'.segment).getAllocatedEdgeNum c'.edgeBlockHeader } := by
      unfold Cursor.settle
      rw [eval_bind, hok]
      rfl
    rw [hsettle]
    have hslot : (g.segments c'.segment).getAllocatedEdgeNum c'.edgeBlockHeader = b'.slot := by
      have halloc := (g.segments f.segment).getAllocatedEdgeNum_pointer b'
      rw [h.head] at halloc
      rw [hon'.segment, hon'.block h, halloc]
    rw [hslot]
    have hat := hon'.at_
    have hset : On r g f edges { c' with edgePropOffset := b'.slot } b' rest' k' queue' :=
      ⟨hon'.segment, hon'.size, ⟨hat.segHeader, hat.block, hat.chain, hat.edges, hat.remaining, hat.position,
        hat.queue⟩, hon'.suffix, hon'.count⟩
    unfold Loaded.readAll
    refine within_get_bind (fun w hw => ?_) (within_toList h hV hset hsettled rfl _)
    obtain ⟨edges', h'⟩ := hV w hw
    simp only [VegitoSegment.blockSize, hon'.segment, h.size, h'.size]
  · rw [eval_bind, Loaded.eval_readAll (Cursor.eval_settle g c), hiterator, hsegment]
    obtain ⟨it, hit, hstarted⟩ := (@start_spec _ _ _ _ _ _ _ _ _ r.stride hsuf hchain hedges hn hcount).exists_ok
    rw [hit]
    show it.toList it.segHeader.blockSize = _
    rw [hstarted.segHeader]
    have hreads :
        Ensures (it.toList (g.segments f.segment).blockSize) (List.Forall₂ (Reads True (chainEdges (f.chain edges)))
        (MarkerLog.yields (marksOf (chainEdges (f.chain edges))) r.snapshot.length [])) Never := by
      rcases hstarted.state with ⟨hzero, hrem⟩ | ⟨b', rest', hsuf', hat, hsettled, hoffset⟩
      · rw [toList_of_invalid hrem, hzero]
        exact List.Forall₂.nil
      · refine toList_spec hat hsettled hoffset hsuf' (fun d hd => ?_) (Nat.le_of_eq hstarted.size)
          (fun _ => hstarted.size) ((MarkerLog.seek_le _ _ _).trans h.count_le_blockSize)
        obtain ⟨newer, more, heq⟩ := List.append_of_mem hd
        have hat : d :: more <:+ f.chain edges := ⟨newer, heq.symm⟩
        rw [h.head]
        exact h.readable hat
    obtain ⟨values, hvalues, hforall⟩ := hreads.exists_ok
    rw [hvalues, reads_snapshot h.snapshot hforall]

theorem snapshotValues_of_nil (hnil : r.snapshot = []) : snapshotValues r = [] := by
  unfold snapshotValues Watched.edges
  rw [hnil]
  rfl

theorem readAll_empty (hnil : r.snapshot = []) (hV : ∀ w, V w → (w.graph.segments f.segment).order =
    (g.segments f.segment).order) {c : Cursor} (hsegment : c.segment = f.segment) (hrem : c.remaining = 0) :
    YieldsSnapshot r g V (Loaded.readAll (.ok c)) := by
  have hvalid : c.valid = false := by
    unfold Cursor.valid
    rw [hrem]
    rfl
  have hlist : ∀ fuel, Cursor.toList fuel c = pure (.ok []) := by
    intro fuel
    cases fuel with
    | zero => simp [Cursor.toList, hvalid]
    | succ fuel => simp [Cursor.toList, hvalid]
  unfold Loaded.readAll
  refine YieldsSnapshot.bind (within_get fun w hw => ?_) ?_
  · simp only [VegitoSegment.blockSize, hsegment, hV w hw]
  · rw [hlist]
    exact ⟨within_pure _, by rw [snapshotValues_of_nil hnil, eval_pure]⟩

/-- Where the epoch of the reader ends, by the table and the block that it has loaded. -/
structure ListEnds (r : Watched) (f : FoundBlock) (edges : List Edge) (numEntries : Nat) (entries : List EpochEntry) :
    Prop where
  nothing : EdgeIterator.findReadEnd r.epoch none entries = .nothing → r.snapshot = []
  upTo : ∀ k, EdgeIterator.findReadEnd r.epoch none entries = .upTo k → k = r.snapshot.length ∧ 0 < k
  whole : EdgeIterator.findReadEnd r.epoch none entries = .whole →
    numEntries ≤ edges.length ∧ r.snapshot.length = (chainEdges f.rest).length + numEntries

theorem HeldTable.ends {t numEntries : Nat} (ht : HeldTable r g t) (ht0 : t ≠ 0) (hshows : Shows r g)
    (h : HeldBlock r g f edges) (hle : numEntries ≤ edges.length)
    (hge : r.snapshot.length ≤ (chainEdges f.rest).length + numEntries) :
    ListEnds r f edges numEntries (g.epochBlocks t).entries := by
  cases ht with
  | none h0 => exact absurd h0 ht0
  | old _ hcut => exact ⟨hcut.nothing, hcut.upTo, fun hend => absurd hend hcut.whole⟩
  | current _ hne htable =>
    obtain ⟨C, hshown⟩ := hshows.located hne
    obtain ⟨-, hcuts⟩ := hshown.table.some (htable.symm ▸ ht0)
    subst htable
    refine ⟨hcuts.nothing, hcuts.upTo, fun hend => ⟨hle, ?_⟩⟩
    -- the list has nothing behind the snapshot
    have hwhole := hcuts.whole hend
    have hlength := h.length
    omega

theorem createCounted_snapshot {t numEntries : Nat} (h : HeldBlock r g f edges)
    (hV : ∀ w, V w → ∃ edges', HeldBlock r w.graph f edges')
    (hT : ∀ w, V w → (g.epochBlocks t).entries <:+ (w.graph.epochBlocks t).entries)
    (hends : ListEnds r f edges numEntries (g.epochBlocks t).entries) :
    YieldsSnapshot r g V (Cursor.createCounted f.segment f.pointer t numEntries r.stride r.epoch
      (g.epochBlocks t).entries.length >>= Loaded.readAll) := by
  have hptr : f.pointer = chainPtr f.segment (f.chain edges) := rfl
  have heval := @Cursor.eval_findReadEnd g t r.epoch [] _ (List.nil_append (g.epochBlocks t).entries).symm
  unfold Cursor.createCounted
  rw [bind_assoc]
  refine YieldsSnapshot.bind (within_findReadEnd hT (Nat.le_refl _)) ?_
  rw [heval]
  dsimp only [List.getLast?_nil]
  cases hend : EdgeIterator.findReadEnd r.epoch none (g.epochBlocks t).entries with
  | nothing =>
    have hempty : Cursor.settle (Cursor.empty f.segment r.stride) =
        (do
          let offset ← Cursor.loadSegment f.segment fun seg => seg.getAllocatedEdgeNum 0
          pure (.ok { Cursor.empty f.segment r.stride with edgePropOffset := offset })) := rfl
    dsimp only
    rw [hempty, bind_assoc]
    refine YieldsSnapshot.bind (within_get fun w hw => ?_)
        (readAll_empty (f := f) (hends.nothing hend) (fun w hw => ?_) rfl rfl)
    · obtain ⟨edges', h'⟩ := hV w hw
      simp only [VegitoSegment.getAllocatedEdgeNum, h.head, h'.head]
    · obtain ⟨edges', h'⟩ := hV w hw
      exact h'.size.trans h.size.symm
  | whole =>
    obtain ⟨hle, hcount⟩ := hends.whole hend
    exact settle_snapshot h hV (b := ⟨f.slot, f.order, edges⟩) List.suffix_rfl hle hcount
  | upTo k =>
    obtain ⟨rfl, hpos⟩ := hends.upTo k hend
    have hle := h.count_le
    have hfuel : (f.chain edges).length ≤ chainLimit := by
      have hlen : (f.chain edges).length ≤ f.order + 1 := h.chain.length_le
      have hord : f.order < 256 := h.chain.order_lt
      unfold chainLimit
      omega
    have hwalk := walkBack_spec h.chain hpos (by simpa [FoundBlock.chain, chainEdges] using hle) hfuel
    obtain ⟨pointer, hok, b, rest, hsuf, rfl, -, -, hlt, hge⟩ := hwalk.exists_ok
    rw [h.head] at hok
    dsimp only
    rw [hptr, bind_assoc]
    refine YieldsSnapshot.bind (within_walkBack h hV List.suffix_rfl _ _) ?_
    rw [Cursor.eval_walkBack, hok]
    dsimp only
    rw [bind_assoc]
    have hprev := (h.chain_of_suffix hsuf).1.getPrevNumEntries
    rw [h.head] at hprev
    refine YieldsSnapshot.bind (within_get fun w hw => ?_) ?_
    · obtain ⟨edges', h'⟩ := hV w hw
      exact (h.kept h' hsuf).prevNum
    · rw [Cursor.eval_loadSegment, hprev]
      exact settle_snapshot h hV hsuf (by omega) (by omega)

end reader

end Gart.Fragment
