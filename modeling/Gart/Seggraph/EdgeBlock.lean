import Gart.Seggraph.Writer

/-!
# One edge block in the bytes of a segment

`BlockWords` and `BlockProps` say that the bytes of a segment hold a given edge
block: its header and entries, and the property slots of its entries. Property
slots are only followed under an assumption `tracked`, because their contents
need one stride for all calls while the entries need only that no stride exceeds
`stride`. `Frame` bounds what a step may change to the slots of one block.
-/

namespace Gart.Seggraph
open Gart.ByteMemory Gart.Outcome

/-- An edge of an adjacency list: the stored vertex and the property bytes. -/
structure Edge where
  dst : Nat
  data : Bytes
  deriving DecidableEq, Repr

/-- An edge block: its first slot in the segment, and its edges oldest first. -/
structure Block where
  slot : Nat
  order : Nat
  edges : List Edge

/-- The slot behind the block (`blocks.hpp:505-507`). -/
def Block.stop (b : Block) : Nat := b.slot + (3 + 2 ^ b.order)

def Block.addr (b : Block) : Nat := segmentHeaderSize + 8 * b.slot

/-- Pointer of the block in a segment at `head`. -/
def Block.pointer (b : Block) (head : Nat) : Nat := head + segmentHeaderSize + 8 * b.slot

def Block.push (b : Block) (e : Edge) : Block := { b with edges := b.edges ++ [e] }

@[simp] theorem Block.push_slot (b : Block) (e : Edge) : (b.push e).slot = b.slot := rfl
@[simp] theorem Block.push_order (b : Block) (e : Edge) : (b.push e).order = b.order := rfl
@[simp] theorem Block.push_edges (b : Block) (e : Edge) : (b.push e).edges = b.edges ++ [e] := rfl
@[simp] theorem Block.push_stop (b : Block) (e : Edge) : (b.push e).stop = b.stop := rfl
@[simp] theorem Block.push_addr (b : Block) (e : Edge) : (b.push e).addr = b.addr := rfl
@[simp] theorem Block.push_pointer (b : Block) (e : Edge) (head : Nat) :
    (b.push e).pointer head = b.pointer head := rfl

theorem Block.push_getElem_lt {b : Block} {e : Edge} {i : Nat} (hi : i < b.edges.length)
    (h : i < (b.push e).edges.length) : (b.push e).edges[i] = b.edges[i] :=
  List.getElem_append_left hi

theorem Block.push_getElem_last {b : Block} {e : Edge}
    (h : b.edges.length < (b.push e).edges.length) : (b.push e).edges[b.edges.length] = e :=
  List.getElem_concat_length rfl h

theorem requireEdgeNum_eq (order : Nat) : VegitoSegment.requireEdgeNum order = 3 + 2 ^ order := rfl

namespace VegitoSegment

theorem blockAddr_pointer (seg : VegitoSegment) (b : Block) :
    seg.blockAddr (b.pointer seg.head) = b.addr := by
  simp only [blockAddr, Block.pointer, Block.addr]
  omega

theorem getAllocatedEdgeNum_pointer (seg : VegitoSegment) (b : Block) :
    seg.getAllocatedEdgeNum (b.pointer seg.head) = b.slot := by
  simp only [getAllocatedEdgeNum, Block.pointer, edgeEntrySize]
  omega

end VegitoSegment

/-! ### The bytes of a block -/

/-- Address of entry `i` of a block. -/
def Block.entryAddr (b : Block) (i : Nat) : Nat := b.addr + 24 + 2 ^ b.order * 8 - (i + 1) * 8

/-- Header and entries of `b`, in front of a chain of `prevNum` edges at `prevPtr` (`blocks.hpp:487-561`). -/
structure BlockWords (seg : VegitoSegment) (b : Block) (prevNum prevPtr : Nat) : Prop where
  order : load seg.body b.addr 1 = b.order
  num : load seg.body (b.addr + 4) 4 = b.edges.length
  prevNum : load seg.body (b.addr + 8) 4 = prevNum
  prevPtr : load seg.body (b.addr + 16) 8 = prevPtr
  entry : ∀ i (h : i < b.edges.length), load seg.body (b.entryAddr i) 8 = b.edges[i].dst
  room : b.edges.length ≤ 2 ^ b.order

/-- Property slots of `b` when every slot is `stride` bytes wide. -/
def BlockProps (tracked : Prop) (stride : Nat) (seg : VegitoSegment) (b : Block) : Prop :=
  tracked → ∀ i (h : i < b.edges.length),
    read seg.body (seg.blockSize - (b.slot + i + 1) * stride) stride = b.edges[i].data

section accessors
variable {seg : VegitoSegment} {b : Block} {prevNum prevPtr : Nat}

theorem BlockWords.getOrder (h : BlockWords seg b prevNum prevPtr) :
    seg.getOrder (b.pointer seg.head) = b.order := by
  rw [VegitoSegment.getOrder, seg.blockAddr_pointer]
  exact h.order

theorem BlockWords.getNumEntries (h : BlockWords seg b prevNum prevPtr) :
    seg.getNumEntries (b.pointer seg.head) = b.edges.length := by
  rw [VegitoSegment.getNumEntries, seg.blockAddr_pointer]
  exact h.num

theorem BlockWords.getPrevNumEntries (h : BlockWords seg b prevNum prevPtr) :
    seg.getPrevNumEntries (b.pointer seg.head) = prevNum := by
  rw [VegitoSegment.getPrevNumEntries, seg.blockAddr_pointer]
  exact h.prevNum

theorem BlockWords.getPrevPointer (h : BlockWords seg b prevNum prevPtr) :
    seg.getPrevPointer (b.pointer seg.head) = prevPtr := by
  rw [VegitoSegment.getPrevPointer, seg.blockAddr_pointer]
  exact h.prevPtr

theorem BlockWords.entryAddr (h : BlockWords seg b prevNum prevPtr) (i : Nat) :
    seg.entryAddr (b.pointer seg.head) i = b.entryAddr i := by
  simp only [VegitoSegment.entryAddr, h.getOrder, seg.blockAddr_pointer, Block.entryAddr,
    edgeBlockHeaderSize, edgeEntrySize]

theorem BlockWords.getEntry (h : BlockWords seg b prevNum prevPtr) (i : Nat)
    (hi : i < b.edges.length) : seg.getEntry (b.pointer seg.head) i = b.edges[i].dst := by
  simp only [VegitoSegment.getEntry, h.entryAddr, edgeEntrySize]
  exact h.entry i hi

theorem BlockWords.hasSpace (h : BlockWords seg b prevNum prevPtr)
    (hnum : b.edges.length + 1 < 2 ^ 32) :
    seg.hasSpace (b.pointer seg.head) = decide (b.edges.length < 2 ^ b.order) := by
  simp only [VegitoSegment.hasSpace, h.getNumEntries, h.getOrder, edgeBlockHeaderSize,
    edgeEntrySize, Nat.mod_eq_of_lt hnum]
  rw [← decide_not]
  apply decide_eq_decide.mpr
  omega

end accessors

/-! ### What a step may change -/

/-- The header stays, and bytes change only in the entries of slots `s0..s1`, or
above the entries of the first `total` slots; while properties are tracked, there
only in the property slots `s0..s1`. -/
structure Frame (tracked : Prop) (stride total s0 s1 : Nat) (seg seg' : VegitoSegment) : Prop where
  order : seg'.order = seg.order
  head : seg'.head = seg.head
  segmentId : seg'.segmentId = seg.segmentId
  allocated : seg'.allocatedEdgeNum = seg.allocatedEdgeNum
  regions : seg'.regionPtrs = seg.regionPtrs
  tables : seg'.epochTables = seg.epochTables
  words : ∀ x, (x < segmentHeaderSize + 8 * s0 ∨ segmentHeaderSize + 8 * s1 ≤ x) →
    x < seg.blockSize - total * stride → seg'.body x = seg.body x
  props : tracked → ∀ x, seg.blockSize - total * stride ≤ x → x < seg.blockSize →
    (x < seg.blockSize - s1 * stride ∨ seg.blockSize - s0 * stride ≤ x) → seg'.body x = seg.body x

/-- Entries and property slots of the first `total` slots fit behind the header. -/
def Fits (stride total order : Nat) : Prop :=
  segmentHeaderSize + 8 * total + total * stride ≤ 2 ^ order

instance (stride total order : Nat) : Decidable (Fits stride total order) :=
  inferInstanceAs (Decidable (_ ≤ _))

section frame
variable {tracked : Prop} {stride total s0 s1 : Nat} {seg seg' seg'' : VegitoSegment}

theorem Frame.refl : Frame tracked stride total s0 s1 seg seg :=
  ⟨rfl, rfl, rfl, rfl, rfl, rfl, fun _ _ _ => rfl, fun _ _ _ _ _ => rfl⟩

theorem Frame.blockSize (h : Frame tracked stride total s0 s1 seg seg') :
    seg'.blockSize = seg.blockSize := by
  simp only [VegitoSegment.blockSize, h.order]

theorem Frame.trans (h : Frame tracked stride total s0 s1 seg seg')
    (h' : Frame tracked stride total s0 s1 seg' seg'') :
    Frame tracked stride total s0 s1 seg seg'' where
  order := h'.order.trans h.order
  head := h'.head.trans h.head
  segmentId := h'.segmentId.trans h.segmentId
  allocated := h'.allocated.trans h.allocated
  regions := h'.regions.trans h.regions
  tables := h'.tables.trans h.tables
  words x hx hlt := by
    rw [h'.words x hx (by rw [h.blockSize]; exact hlt), h.words x hx hlt]
  props ht x h1 h2 hx := by
    have hsize := h.blockSize
    rw [h'.props ht x (by rw [hsize]; exact h1) (by rw [hsize]; exact h2) (by rw [hsize]; exact hx),
      h.props ht x h1 h2 hx]

theorem Frame.setRegionPtr (h : Frame tracked stride total s0 s1 seg seg') (i pointer : Nat) :
    Frame tracked stride total s0 s1 (seg.setRegionPtr i pointer) (seg'.setRegionPtr i pointer) where
  order := h.order
  head := h.head
  segmentId := h.segmentId
  allocated := h.allocated
  regions := by simp only [VegitoSegment.setRegionPtr, h.regions]
  tables := h.tables
  words := h.words
  props := h.props

theorem frame_of_words {m : Memory}
    (h : ∀ x, (x < segmentHeaderSize + 8 * s0 ∨ segmentHeaderSize + 8 * s1 ≤ x) → m x = seg.body x)
    (hs : s1 ≤ total) (hfits : Fits stride total seg.order) :
    Frame tracked stride total s0 s1 seg { seg with body := m } := by
  unfold Fits at hfits
  have hsize : seg.blockSize = 2 ^ seg.order := rfl
  refine ⟨rfl, rfl, rfl, rfl, rfl, rfl, fun x hx _ => h x hx, ?_⟩
  intro _ x hx1 _ _
  exact h x (Or.inr (by omega))

/-- A write to a property slot of the framed slots, at a stride that is not
wider; at the common stride while properties are tracked. -/
theorem frame_property {s width : Nat} {value : Bytes} (hlen : value.length = width)
    (h0 : s0 ≤ s) (h1 : s < s1) (hs : s1 ≤ total) (hwidth : width ≤ stride)
    (htrack : tracked → width = stride) (hfits : Fits stride total seg.order) :
    Frame tracked stride total s0 s1 seg
      { seg with body := write seg.body (seg.blockSize - (s + 1) * width) value } := by
  unfold Fits at hfits
  have hsize : seg.blockSize = 2 ^ seg.order := rfl
  have hle : (s + 1) * width ≤ total * stride := Nat.mul_le_mul (by omega) hwidth
  refine ⟨rfl, rfl, rfl, rfl, rfl, rfl, ?_, ?_⟩
  · intro x _ hx
    exact write_outside (by omega)
  · intro ht x hx1 hx2 hx
    have heq := htrack ht
    subst heq
    have hle1 : (s + 1) * width ≤ s1 * width := Nat.mul_le_mul_right _ (by omega)
    have hle0 : s0 * width ≤ s * width := Nat.mul_le_mul_right _ h0
    have hsucc : (s + 1) * width = s * width + width := Nat.succ_mul s width
    refine write_outside ?_
    rw [hlen]
    rcases hx with hx | hx
    · exact Or.inl (by omega)
    · exact Or.inr (by omega)

theorem BlockWords.of_frame {b : Block} {prevNum prevPtr : Nat}
    (h : BlockWords seg b prevNum prevPtr) (hf : Frame tracked stride total s0 s1 seg seg')
    (hout : b.stop ≤ s0 ∨ s1 ≤ b.slot) (hin : b.stop ≤ total)
    (hfits : Fits stride total seg.order) : BlockWords seg' b prevNum prevPtr := by
  unfold Fits at hfits
  unfold Block.stop at hout hin
  have hsize : seg.blockSize = 2 ^ seg.order := rfl
  have hword : ∀ a n, b.addr ≤ a → a + n ≤ b.addr + 24 + 2 ^ b.order * 8 →
      load seg'.body a n = load seg.body a n := by
    intro a n ha hn
    unfold Block.addr at ha hn
    unfold load
    rw [read_congr]
    intro x hx1 hx2
    exact hf.words x (by omega) (by omega)
  have hpow : 0 < 2 ^ b.order := Nat.two_pow_pos _
  refine ⟨?_, ?_, ?_, ?_, ?_, h.room⟩
  · rw [hword _ _ (by omega) (by omega), h.order]
  · rw [hword _ _ (by omega) (by omega), h.num]
  · rw [hword _ _ (by omega) (by omega), h.prevNum]
  · rw [hword _ _ (by omega) (by omega), h.prevPtr]
  · intro i hi
    have hroom := h.room
    rw [hword _ _ (by unfold Block.entryAddr; omega) (by unfold Block.entryAddr; omega),
      h.entry i hi]

theorem BlockProps.of_frame {b : Block} (h : BlockProps tracked stride seg b)
    (hf : Frame tracked stride total s0 s1 seg seg') (hroom : b.edges.length ≤ 2 ^ b.order)
    (hout : b.stop ≤ s0 ∨ s1 ≤ b.slot) (hin : b.stop ≤ total)
    (hfits : Fits stride total seg.order) : BlockProps tracked stride seg' b := by
  unfold Fits at hfits
  unfold Block.stop at hout hin
  have hsize : seg.blockSize = 2 ^ seg.order := rfl
  intro ht i hi
  rw [hf.blockSize, ← h ht i hi]
  apply read_congr
  intro x hx1 hx2
  have hsucc : (b.slot + i + 1) * stride = (b.slot + i) * stride + stride := Nat.succ_mul _ _
  have hle : (b.slot + i + 1) * stride ≤ total * stride := Nat.mul_le_mul_right _ (by omega)
  apply hf.props ht x (by omega) (by omega)
  rcases hout with hout | hout
  · have hle0 : (b.slot + i + 1) * stride ≤ s0 * stride := Nat.mul_le_mul_right _ (by omega)
    exact Or.inr (by omega)
  · have hle1 : s1 * stride ≤ (b.slot + i) * stride := Nat.mul_le_mul_right _ (by omega)
    exact Or.inl (by omega)

end frame

end Gart.Seggraph
