import Gart.Seggraph.EdgeBlock

/-!
# Filling, appending to and copying edge blocks

One lemma for each operation on an edge block: what the bytes hold afterwards,
and the frame it stays in.
-/

namespace Gart.Seggraph
open Gart.ByteMemory Gart.Outcome

variable {tracked : Prop} {stride total : Nat} {seg : VegitoSegment} {b : Block}
  {prevNum prevPtr : Nat}

/-! ### fill -/

theorem fillBlock_words (hprev : prevNum < 2 ^ 32) (hptr : prevPtr < 2 ^ 64)
    (horder : b.order < 256) (hempty : b.edges = []) :
    BlockWords (seg.fillBlock (b.pointer seg.head) b.order prevPtr prevNum) b prevNum prevPtr := by
  simp only [VegitoSegment.fillBlock, seg.blockAddr_pointer]
  refine ⟨?_, ?_, ?_, ?_, ?_, ?_⟩
  · dsimp only
    rw [load_store_disjoint (by omega), load_store_disjoint (by omega),
      load_store_disjoint (by omega), load_store_disjoint (by omega), load_store_of_lt (by omega)]
  · rw [hempty]
    exact load_store_of_lt (by simp)
  · dsimp only
    rw [load_store_disjoint (by omega), load_store_of_lt (by omega)]
  · dsimp only
    rw [load_store_disjoint (by omega), load_store_disjoint (by omega),
      load_store_of_lt (by omega)]
  · intro i hi
    simp [hempty] at hi
  · simp [hempty]

theorem fillBlock_frame (hfits : Fits stride total seg.order) (hin : b.stop ≤ total) :
    Frame tracked stride total b.slot b.stop seg
      (seg.fillBlock (b.pointer seg.head) b.order prevPtr prevNum) := by
  have hpow : 0 < 2 ^ b.order := Nat.two_pow_pos _
  have hstop : b.stop = b.slot + (3 + 2 ^ b.order) := rfl
  have haddr : b.addr = segmentHeaderSize + 8 * b.slot := rfl
  simp only [VegitoSegment.fillBlock, seg.blockAddr_pointer]
  refine frame_of_words ?_ hin hfits
  intro x hx
  -- five stores into the header of the block
  rw [store_outside (by omega), store_outside (by omega), store_outside (by omega),
    store_outside (by omega), store_outside (by omega)]

/-! ### append -/

theorem appendEntry_eq (h : BlockWords seg b prevNum prevPtr) (hspace : b.edges.length < 2 ^ b.order)
    (hnum : b.edges.length + 1 < 2 ^ 32) (dst : Nat) :
    seg.appendEntry (b.pointer seg.head) dst =
      { seg with
        body := store (store seg.body (b.entryAddr b.edges.length) 8 dst) (b.addr + 4) 4
          (b.edges.length + 1) } := by
  have hsp : seg.hasSpace (b.pointer seg.head) = true := by
    rw [h.hasSpace hnum]
    exact decide_eq_true hspace
  have haddr := seg.blockAddr_pointer b
  simp only [VegitoSegment.blockAddr] at haddr
  simp only [VegitoSegment.appendEntry, hsp, if_true, VegitoSegment.setNumEntries,
    VegitoSegment.blockAddr, haddr, h.getNumEntries, h.entryAddr, edgeEntrySize]

theorem appendEntry_frame (h : BlockWords seg b prevNum prevPtr)
    (hspace : b.edges.length < 2 ^ b.order) (hnum : b.edges.length + 1 < 2 ^ 32) {dst : Nat}
    (hfits : Fits stride total seg.order) (hin : b.stop ≤ total) :
    Frame tracked stride total b.slot b.stop seg (seg.appendEntry (b.pointer seg.head) dst) := by
  have hstop : b.stop = b.slot + (3 + 2 ^ b.order) := rfl
  have haddr : b.addr = segmentHeaderSize + 8 * b.slot := rfl
  have hentry : b.entryAddr b.edges.length
      = b.addr + 24 + 2 ^ b.order * 8 - (b.edges.length + 1) * 8 := rfl
  rw [appendEntry_eq h hspace hnum]
  refine frame_of_words ?_ hin hfits
  intro x hx
  rw [store_outside (by omega), store_outside (by omega)]

theorem appendEntry_words (h : BlockWords seg b prevNum prevPtr)
    (hspace : b.edges.length < 2 ^ b.order) (hnum : b.edges.length + 1 < 2 ^ 32) {e : Edge}
    (hdst : e.dst < 2 ^ 64) :
    BlockWords (seg.appendEntry (b.pointer seg.head) e.dst) (b.push e) prevNum prevPtr := by
  have hentry : ∀ i, b.entryAddr i = b.addr + 24 + 2 ^ b.order * 8 - (i + 1) * 8 := fun _ => rfl
  rw [appendEntry_eq h hspace hnum]
  have hlast := hentry b.edges.length
  refine ⟨?_, ?_, ?_, ?_, ?_, ?_⟩
  · dsimp only [Block.push_addr, Block.push_order]
    rw [load_store_disjoint (by omega), load_store_disjoint (by omega), h.order]
  · dsimp only [Block.push_addr]
    rw [Block.push_edges, List.length_append, List.length_singleton]
    exact load_store_of_lt (by omega)
  · dsimp only [Block.push_addr]
    rw [load_store_disjoint (by omega), load_store_disjoint (by omega), h.prevNum]
  · dsimp only [Block.push_addr]
    rw [load_store_disjoint (by omega), load_store_disjoint (by omega), h.prevPtr]
  · intro i hi
    have hei := hentry i
    have hi2 := hi
    simp only [Block.push_edges, List.length_append, List.length_singleton] at hi2
    have haddr : (b.push e).entryAddr i = b.entryAddr i := rfl
    dsimp only
    rw [haddr, load_store_disjoint (by omega)]
    by_cases hlt : i < b.edges.length
    · rw [load_store_disjoint (by omega), h.entry i hlt, Block.push_getElem_lt hlt]
    · have hi' : i = b.edges.length := by omega
      subst hi'
      rw [load_store_of_lt (by omega), Block.push_getElem_last]
  · simp only [Block.push_edges, List.length_append, List.length_singleton, Block.push_order]
    omega

/-! ### An entry with its property -/

def writeProperty (seg : VegitoSegment) (offset : Nat) (value : Bytes) :
    Except Fault VegitoSegment :=
  if value.length > 0 then seg.appendProperty offset value else .ok seg

theorem BlockProps.push {e : Edge} {value : Bytes} {seg' : VegitoSegment}
    (h : BlockProps tracked stride seg b)
    (hlen : tracked → value.length = stride) (hdata : tracked → value = e.data)
    (hfits : Fits stride total seg.order) (hin : b.stop ≤ total)
    (hspace : b.edges.length < 2 ^ b.order)
    (hseg' : seg' = { seg with
      body := write seg.body (seg.blockSize - (b.slot + b.edges.length + 1) * value.length) value }) :
    BlockProps tracked stride seg' (b.push e) := by
  intro ht i hi
  have hv := hlen ht
  unfold Fits at hfits
  unfold Block.stop at hin
  have hsize : seg.blockSize = 2 ^ seg.order := rfl
  have hsize' : seg'.blockSize = seg.blockSize := by rw [hseg']; rfl
  have hle : (b.slot + b.edges.length + 1) * stride ≤ total * stride :=
    Nat.mul_le_mul_right _ (by omega)
  have hi2 := hi
  simp only [Block.push_edges, List.length_append, List.length_singleton] at hi2
  rw [hsize', hseg']
  dsimp only [Block.push_slot]
  rw [hv]
  by_cases hlt : i < b.edges.length
  · have hsucc : (b.slot + b.edges.length + 1) * stride
        = (b.slot + b.edges.length) * stride + stride := Nat.succ_mul _ _
    have hle2 : (b.slot + i + 1) * stride ≤ (b.slot + b.edges.length) * stride :=
      Nat.mul_le_mul_right _ (by omega)
    rw [read_write_disjoint (by omega), h ht i hlt, Block.push_getElem_lt hlt]
  · have hi' : i = b.edges.length := by omega
    subst hi'
    rw [read_write_of_length hv, Block.push_getElem_last, hdata ht]

theorem push_spec {e : Edge} {value : Bytes} (h : BlockWords seg b prevNum prevPtr)
    (hp : BlockProps tracked stride seg b) (hspace : b.edges.length < 2 ^ b.order)
    (hnum : b.edges.length + 1 < 2 ^ 32) (hdst : e.dst < 2 ^ 64)
    (hwidth : value.length ≤ stride) (htrack : tracked → value.length = stride)
    (hdata : tracked → value = e.data) (hfits : Fits stride total seg.order)
    (hin : b.stop ≤ total) :
    Ensures
      (writeProperty (seg.appendEntry (b.pointer seg.head) e.dst) (b.slot + b.edges.length) value)
      (fun seg' => Frame tracked stride total b.slot b.stop seg seg' ∧
        BlockWords seg' (b.push e) prevNum prevPtr ∧ BlockProps tracked stride seg' (b.push e))
      Never := by
  have hframe : Frame tracked stride total b.slot b.stop seg
      (seg.appendEntry (b.pointer seg.head) e.dst) := appendEntry_frame h hspace hnum hfits hin
  have hwords := appendEntry_words h hspace hnum hdst
  have heq := appendEntry_eq h hspace hnum e.dst
  -- the entry leaves every property slot of the block alone
  have hprops : BlockProps tracked stride (seg.appendEntry (b.pointer seg.head) e.dst) b := by
    intro ht i hi
    rw [hframe.blockSize, ← hp ht i hi, heq]
    unfold Fits at hfits
    unfold Block.stop at hin
    have hsize : seg.blockSize = 2 ^ seg.order := rfl
    have hle : (b.slot + i + 1) * stride ≤ total * stride := Nat.mul_le_mul_right _ (by omega)
    have haddr : b.addr = segmentHeaderSize + 8 * b.slot := rfl
    have hentry : b.entryAddr b.edges.length
        = b.addr + 24 + 2 ^ b.order * 8 - (b.edges.length + 1) * 8 := rfl
    dsimp only
    rw [read_store_disjoint (by omega), read_store_disjoint (by omega)]
  generalize seg.appendEntry (b.pointer seg.head) e.dst = s at hframe hwords hprops
  have hfits' : Fits stride total s.order := by rw [hframe.order]; exact hfits
  have hstop : b.stop = b.slot + (3 + 2 ^ b.order) := rfl
  have hle : (b.slot + b.edges.length + 1) * value.length ≤ total * stride :=
    Nat.mul_le_mul (by omega) hwidth
  have hfit := hfits'
  unfold Fits at hfit
  have hpa : segmentHeaderSize + (b.slot + b.edges.length + 1) * value.length ≤ s.blockSize := by
    simp only [VegitoSegment.blockSize]
    omega
  have hwf : Frame tracked stride total b.slot b.stop s { s with
      body := write s.body (s.blockSize - (b.slot + b.edges.length + 1) * value.length) value } :=
    frame_property rfl (by omega) (by omega) hin hwidth htrack hfits'
  have hpush := BlockProps.push hprops (e := e) htrack hdata hfits' hin hspace rfl
  unfold writeProperty
  by_cases hpos : value.length > 0
  · rw [if_pos hpos]
    simp only [VegitoSegment.appendProperty, VegitoSegment.propertyAddr, if_pos hpa, bind,
      Except.bind, ensures_ok]
    refine ⟨hframe.trans hwf, ?_, hpush⟩
    -- the property lies above every entry
    refine ⟨?_, ?_, ?_, ?_, ?_, hwords.room⟩
    all_goals
      have haddr : b.addr = segmentHeaderSize + 8 * b.slot := rfl
      have hsize : s.blockSize = 2 ^ s.order := rfl
    · rw [← hwords.order]
      exact load_write_disjoint (Or.inl (by simp only [Block.push_addr]; omega))
    · rw [← hwords.num]
      exact load_write_disjoint (Or.inl (by simp only [Block.push_addr]; omega))
    · rw [← hwords.prevNum]
      exact load_write_disjoint (Or.inl (by simp only [Block.push_addr]; omega))
    · rw [← hwords.prevPtr]
      exact load_write_disjoint (Or.inl (by simp only [Block.push_addr]; omega))
    · intro i hi
      rw [← hwords.entry i hi]
      have hentry : (b.push e).entryAddr i = b.addr + 24 + 2 ^ b.order * 8 - (i + 1) * 8 := rfl
      exact load_write_disjoint (Or.inl (by omega))
  · rw [if_neg hpos]
    have hnil : value = [] := List.eq_nil_of_length_eq_zero (by omega)
    rw [hnil, write_nil] at hpush
    exact ⟨hframe, hwords, hpush⟩

theorem insertEdge_spec {e : Edge} {value : Bytes} (h : BlockWords seg b prevNum prevPtr)
    (hp : BlockProps tracked stride seg b) (hspace : b.edges.length < 2 ^ b.order)
    (hnum : b.edges.length + 1 < 2 ^ 32) (hdst : e.dst < 2 ^ 64)
    (hwidth : value.length ≤ stride) (htrack : tracked → value.length = stride)
    (hdata : tracked → value = e.data) (hfits : Fits stride total seg.order)
    (hin : b.stop ≤ total) :
    Ensures (seg.insertEdge (b.pointer seg.head) e.dst value)
      (fun seg' => Frame tracked stride total b.slot b.stop seg seg' ∧
        BlockWords seg' (b.push e) prevNum prevPtr ∧ BlockProps tracked stride seg' (b.push e))
      Never := by
  have hpush := push_spec h hp hspace hnum hdst hwidth htrack hdata hfits hin
  simp only [VegitoSegment.insertEdge, seg.getAllocatedEdgeNum_pointer, h.getNumEntries]
  exact hpush

/-! ### copy -/

/-- The block with further edges behind its own. -/
def Block.append (b : Block) (edges : List Edge) : Block := { b with edges := b.edges ++ edges }

theorem Block.append_nil (b : Block) : b.append [] = b := by simp [Block.append]

theorem Block.append_append (b : Block) (xs ys : List Edge) :
    (b.append xs).append ys = b.append (xs ++ ys) := by simp [Block.append]

theorem Block.append_push (b : Block) (xs : List Edge) (e : Edge) :
    (b.append xs).push e = b.append (xs ++ [e]) := by simp [Block.append, Block.push]

@[simp] theorem Block.append_slot (b : Block) (es : List Edge) : (b.append es).slot = b.slot := rfl
@[simp] theorem Block.append_order (b : Block) (es : List Edge) : (b.append es).order = b.order := rfl
@[simp] theorem Block.append_stop (b : Block) (es : List Edge) : (b.append es).stop = b.stop := rfl
@[simp] theorem Block.append_pointer (b : Block) (es : List Edge) (head : Nat) :
    (b.append es).pointer head = b.pointer head := rfl
@[simp] theorem Block.append_edges (b : Block) (es : List Edge) :
    (b.append es).edges = b.edges ++ es := rfl

/-- A block that a copy loop may read: its bytes, all inside the segment. -/
structure Readable (tracked : Prop) (stride : Nat) (seg : VegitoSegment) (pointer : Nat)
    (o : Block) : Prop where
  pointer : pointer = o.pointer seg.head
  words : ∃ prevNum prevPtr, BlockWords seg o prevNum prevPtr
  props : BlockProps tracked stride seg o
  fits : ∃ total, Fits stride total seg.order ∧ o.stop ≤ total

theorem Readable.getProperty {o : Block} {pointer width i : Nat}
    (h : Readable tracked stride seg pointer o) (hi : i < o.edges.length)
    (hwidth : width ≤ stride) (htrack : tracked → width = stride) :
    ∃ value, seg.getProperty (o.slot + i) width = .ok value ∧ value.length = width ∧
      (tracked → value = o.edges[i].data) := by
  obtain ⟨prevNum, prevPtr, hw⟩ := h.words
  obtain ⟨total, hfits, hin⟩ := h.fits
  have hroom := hw.room
  have hle : (o.slot + i + 1) * width ≤ total * stride := by
    unfold Block.stop at hin
    exact Nat.mul_le_mul (by omega) hwidth
  have hpa : segmentHeaderSize + (o.slot + i + 1) * width ≤ seg.blockSize := by
    unfold Fits at hfits
    simp only [VegitoSegment.blockSize]
    omega
  refine ⟨read seg.body (seg.blockSize - (o.slot + i + 1) * width) width, ?_, by simp, ?_⟩
  · simp only [VegitoSegment.getProperty, VegitoSegment.propertyAddr, if_pos hpa, bind,
      Except.bind]
  · intro ht
    rw [htrack ht]
    exact h.props ht i hi

section copy
variable {source : VegitoSegment → VegitoSegment} {pointer width : Nat} {o : Block}

theorem copyEntry_spec {i : Nat} {seg0 : VegitoSegment} (hi : i < o.edges.length)
    (hsrc : ∀ s, Frame tracked stride total b.slot b.stop seg0 s →
      Readable tracked stride (source s) pointer o)
    (hseg : Frame tracked stride total b.slot b.stop seg0 seg)
    (h : BlockWords seg b prevNum prevPtr) (hp : BlockProps tracked stride seg b)
    (hspace : b.edges.length < 2 ^ b.order) (hnum : b.edges.length + 1 < 2 ^ 32)
    (hwidth : width ≤ stride) (htrack : tracked → width = stride)
    (hfits : Fits stride total seg.order) (hin : b.stop ≤ total) :
    Ensures (VegitoSegment.copyEntry source pointer (b.pointer seg.head) width i seg)
      (fun seg' => Frame tracked stride total b.slot b.stop seg seg' ∧
        BlockWords seg' (b.push o.edges[i]) prevNum prevPtr ∧
        BlockProps tracked stride seg' (b.push o.edges[i])) Never := by
  have hread := hsrc seg hseg
  obtain ⟨_, _, how⟩ := hread.words
  have hget : (source seg).getEntry pointer i = o.edges[i].dst := by
    rw [hread.pointer]
    exact how.getEntry i hi
  have hdst : o.edges[i].dst < 2 ^ 64 := by
    rw [← how.entry i hi]
    exact load_lt _ _ _
  have hframe : Frame tracked stride total b.slot b.stop seg
      (seg.appendEntry (b.pointer seg.head) o.edges[i].dst) :=
    appendEntry_frame h hspace hnum hfits hin
  have hwords := appendEntry_words h hspace hnum hdst
  -- the old block is still there behind the new entry
  have hread' := hsrc _ (hseg.trans hframe)
  obtain ⟨value, hvalue, hlen, hdata⟩ := hread'.getProperty hi hwidth htrack
  have hpush := push_spec h hp hspace hnum hdst (by omega) (fun ht => hlen.trans (htrack ht)) hdata
    hfits hin
  have hnumEntries := hwords.getNumEntries
  have halloc := VegitoSegment.getAllocatedEdgeNum_pointer
    (seg.appendEntry (b.pointer seg.head) o.edges[i].dst) b
  have hold : (source (seg.appendEntry (b.pointer seg.head) o.edges[i].dst)).getAllocatedEdgeNum
      pointer = o.slot := by
    rw [hread'.pointer]
    exact VegitoSegment.getAllocatedEdgeNum_pointer _ o
  rw [hframe.head] at halloc
  rw [Block.push_pointer, hframe.head, Block.push_edges, List.length_append,
    List.length_singleton] at hnumEntries
  have hoff : b.slot + (b.edges.length + 1) - 1 = b.slot + b.edges.length := by omega
  unfold VegitoSegment.copyEntry
  unfold writeProperty at hpush
  rw [hlen] at hpush
  by_cases hpos : width > 0
  · simp only [if_pos hpos] at hpush ⊢
    rw [hget, hold, hvalue, halloc, hnumEntries, hoff]
    exact hpush
  · simp only [if_neg hpos] at hpush ⊢
    rw [hget]
    exact hpush

theorem copyEntries_spec
    (hsrc : ∀ s, Frame tracked stride total b.slot b.stop seg s →
      Readable tracked stride (source s) pointer o)
    (h : BlockWords seg b prevNum prevPtr) (hp : BlockProps tracked stride seg b)
    (hspace : b.edges.length + o.edges.length ≤ 2 ^ b.order)
    (hnum : b.edges.length + o.edges.length < 2 ^ 32)
    (hwidth : width ≤ stride) (htrack : tracked → width = stride)
    (hfits : Fits stride total seg.order) (hin : b.stop ≤ total) :
    Ensures (VegitoSegment.copyEntries source pointer (b.pointer seg.head) width seg)
      (fun seg' => Frame tracked stride total b.slot b.stop seg seg' ∧
        BlockWords seg' (b.append o.edges) prevNum prevPtr ∧
        BlockProps tracked stride seg' (b.append o.edges)) Never := by
  have hread := hsrc seg Frame.refl
  obtain ⟨_, _, how⟩ := hread.words
  have hn : (source seg).getNumEntries pointer = o.edges.length := by
    rw [hread.pointer]
    exact how.getNumEntries
  unfold VegitoSegment.copyEntries
  rw [hn]
  have hloop := forRange_invariant
    (f := VegitoSegment.copyEntry source pointer (b.pointer seg.head) width)
    (I := fun k s => Frame tracked stride total b.slot b.stop seg s ∧
      BlockWords s (b.append (o.edges.take k)) prevNum prevPtr ∧
      BlockProps tracked stride s (b.append (o.edges.take k)))
    (E := Never) (i := 0) (n := o.edges.length) (s := seg) ?_ ?_
  · rw [Nat.zero_add, List.take_length] at hloop
    exact hloop
  · simp only [List.take_zero, Block.append_nil]
    exact ⟨Frame.refl, h, hp⟩
  · rintro k s - hk ⟨hf, hw, hpr⟩
    rw [Nat.zero_add] at hk
    have hlen : (b.append (o.edges.take k)).edges.length = b.edges.length + k := by
      rw [Block.append_edges, List.length_append, List.length_take]
      omega
    have hstep := copyEntry_spec (b := b.append (o.edges.take k)) hk hsrc hf hw hpr
      (by rw [hlen, Block.append_order]; omega) (by rw [hlen]; omega) hwidth htrack
      (by rw [hf.order]; exact hfits) hin
    rw [Block.append_pointer, hf.head] at hstep
    refine hstep.imp ?_
    rintro s' ⟨hf', hw', hp'⟩
    rw [Block.append_push, List.take_concat_get' o.edges k hk] at hw' hp'
    exact ⟨hf.trans hf', hw', hp'⟩

end copy

end Gart.Seggraph
