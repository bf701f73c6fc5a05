import Gart.Fragment.VertexRanges
import Gart.Lib.BitArray

/-!
# Internal ids (interfaces/grin/src/index/internal_id.cc)

The inner vertices of a type come first, then the outer ones. A bitmap says which ids a vertex has.
-/

namespace Gart.Fragment
open Gart.ByteMemory Gart.Outcome Gart.Store Gart.Converter

/-- A `std::string` that holds bits (`gart_fragment.h:1496`). Behind its `size` bytes lies the terminating NUL, which
`bytes` has too. -/
structure Bitmap where
  bytes : Memory
  size : Nat

namespace Bitmap

def zeros (size : Nat) : Bitmap := { bytes := fun _ => 0, size := size }

/-- `get_bit` (`bitset.h:26`); the NUL at `data()[size()]` can be read. -/
def getBit (b : Bitmap) (i : Nat) : Except StoreFault Bool :=
  if i / 8 ≤ b.size then .ok (BitArray.getBit b.bytes i) else .error .outOfBounds

/-- `set_bit` (`bitset.h:30`); the NUL may not be written. -/
def setBit (b : Bitmap) (i : Nat) : Except StoreFault Bitmap :=
  if i / 8 < b.size then .ok { b with bytes := BitArray.setBit b.bytes i } else .error .outOfBounds

end Bitmap

namespace VertexRanges

/-- `grin_get_vertex_internal_id_upper_bound_by_type` (`internal_id.cc:99-103`) -/
def getVertexInternalIdUpperBoundByType (f : VertexRanges) (vt : Nat) : Nat :=
  f.getMaxInnerVerticesNum vt + f.getMaxOuterVerticesNum vt

/-- `vertex_internal_id_null_bitmap_` of a label, from the vertices that the two iterators give
(`gart_fragment.h:62-451`). -/
def internalIdBitmap (f : VertexRanges) (vlabel : Nat) (inner outer : List Nat) : Except StoreFault Bitmap := do
  let bitmapSize := f.getMaxInnerVerticesNum vlabel + f.getMaxOuterVerticesNum vlabel
  let bitmap ← inner.foldlM (fun b src => b.setBit (f.getOffset src)) (.zeros (byteSize bitmapSize))
  outer.foldlM (fun b src => b.setBit (f.getOffset src + f.getMaxInnerVerticesNum vlabel)) bitmap

/-- `InternalIdIsValid` (`gart_fragment.h:1120-1128`); an id is unsigned there and never less than 0. -/
def internalIdIsValid (f : VertexRanges) (bitmap : Bitmap) (internalId vlabel : Nat) : Except StoreFault Bool :=
  if internalId > f.getMaxInnerVerticesNum vlabel + f.getMaxOuterVerticesNum vlabel then .ok false
  else bitmap.getBit internalId

/-- `grin_get_vertex_internal_id_by_type` (`internal_id.cc:58-68`) -/
def getVertexInternalIdByType (f : VertexRanges) (vt v : Nat) : Nat :=
  if f.isInnerVertex v then f.getOffset v else f.getOffset v + f.getMaxInnerVerticesNum vt

/-- `GRIN_NULL_VERTEX` is `none` (`internal_id.cc:77-91`). -/
def getVertexByInternalIdByType (f : VertexRanges) (bitmap : Bitmap) (vt : Nat) (id : Int) :
    Except StoreFault (Option Nat) := do
  let valid ← f.internalIdIsValid bitmap (toUInt64 id) vt
  if ¬ valid then return none
  else if toUInt64 id < f.getMaxInnerVerticesNum vt then return some (f.vidParser.generateId 0 vt (toUInt64 id))
  else
    let offset := f.maxOuterIdOffset - (toUInt64 id - f.getMaxInnerVerticesNum vt)
    return some (f.vidParser.generateId 0 vt offset)

end VertexRanges

/-- Ids and the vertices of a list are translated to each other, and no other id of 64 bits is accepted. An id of the
range that no vertex of the list has belongs to a deleted one. -/
structure InternalIdsOk (f : VertexRanges) (bitmap : Bitmap) (vt : Nat) (lids : List Nat) : Prop where
  forth : ∀ v ∈ lids, f.getVertexInternalIdByType vt v < f.getVertexInternalIdUpperBoundByType vt ∧
    f.getVertexByInternalIdByType bitmap vt (f.getVertexInternalIdByType vt v) = .ok (some v)
  back : ∀ id < f.getVertexInternalIdUpperBoundByType vt, ∀ v,
    f.getVertexByInternalIdByType bitmap vt id = .ok (some v) → v ∈ lids ∧ f.getVertexInternalIdByType vt v = id
  deleted : ∀ id < f.getVertexInternalIdUpperBoundByType vt, (∀ v ∈ lids, f.getVertexInternalIdByType vt v ≠ id) →
    f.getVertexByInternalIdByType bitmap vt id = .ok none
  outside : ∀ id : Int, -2 ^ 63 ≤ id → id < 2 ^ 63 →
    id < 0 ∨ (f.getVertexInternalIdUpperBoundByType vt : Int) ≤ id →
    f.getVertexByInternalIdByType bitmap vt id = .ok none

/-! ### The bitmap -/

section bits
variable {b : Bitmap} {i : Nat}

theorem setBits_spec {α : Type} (location : α → Nat) {xs : List α} {b : Bitmap}
    (h : ∀ x ∈ xs, location x / 8 < b.size) :
    ∃ b', xs.foldlM (fun b x => b.setBit (location x)) b = .ok b' ∧ b'.size = b.size ∧
      ∀ i, BitArray.getBit b'.bytes i = true ↔ BitArray.getBit b.bytes i = true ∨ ∃ x ∈ xs, location x = i := by
  induction xs generalizing b with
  | nil => exact ⟨b, rfl, rfl, fun i => by simp⟩
  | cons x xs ih =>
    have hfirst : b.setBit (location x) = .ok { b with bytes := BitArray.setBit b.bytes (location x) } :=
      if_pos (h x List.mem_cons_self)
    obtain ⟨b', hrun, hsize, hbits⟩ := @ih { b with bytes := BitArray.setBit b.bytes (location x) }
      fun y hy => h y (List.mem_cons_of_mem x hy)
    refine ⟨b', ?_, hsize, fun i => ?_⟩
    · rw [List.foldlM_cons, hfirst]
      exact hrun
    · rw [hbits]
      have hset : BitArray.getBit (BitArray.setBit b.bytes (location x)) i =
          if i = location x then true else BitArray.getBit b.bytes i :=
        @BitArray.getBit_putBit b.bytes (location x) i true
      rw [hset]
      by_cases hi : i = location x
      · simp [hi]
      · have hne : location x ≠ i := fun heq => hi heq.symm
        simp [hi, hne]

theorem getBit_zeros (size i : Nat) : BitArray.getBit (Bitmap.zeros size).bytes i = false := by
  unfold BitArray.getBit Bitmap.zeros
  simp

theorem div_lt_byteSize {n : Nat} (h : i < n) : i / 8 < byteSize n := by
  unfold byteSize
  omega

end bits

/-! ### The ids of a label -/

section ids
variable {f : VertexRanges} {vlabel maxInner maxOuter v id : Nat} {inner outer : List Nat} {bitmap : Bitmap}

/-- The vertices of a list are vertices of the ranges. -/
structure InRanges (f : VertexRanges) (vlabel maxInner maxOuter : Nat) (inner outer : List Nat) : Prop where
  inner : ∀ v ∈ inner, ∃ o < maxInner, v = f.vidParser.generateId 0 vlabel o
  outer : ∀ v ∈ outer, ∃ ov < maxOuter, v = outerLidOf f.vidParser vlabel ov

def vertexOfId (f : VertexRanges) (vlabel maxInner id : Nat) : Nat :=
  if id < maxInner then f.vidParser.generateId 0 vlabel id else outerLidOf f.vidParser vlabel (id - maxInner)

theorem internalId_inner (h : SplitsLids f vlabel maxInner maxOuter) {o : Nat} (ho : o < maxInner) :
    f.getVertexInternalIdByType vlabel (f.vidParser.generateId 0 vlabel o) = o := by
  obtain ⟨hinner, -, hoffset⟩ := h.inner ho
  unfold VertexRanges.getVertexInternalIdByType
  rw [if_pos hinner, hoffset]

theorem internalId_outer (h : SplitsLids f vlabel maxInner maxOuter) {ov : Nat} (hov : ov < maxOuter) :
    f.getVertexInternalIdByType vlabel (outerLidOf f.vidParser vlabel ov) = ov + maxInner := by
  obtain ⟨hinner, -, hoffset⟩ := h.outer hov
  unfold VertexRanges.getVertexInternalIdByType
  rw [hinner, if_neg Bool.false_ne_true, hoffset, h.getMaxInner]

theorem upperBound_eq (h : SplitsLids f vlabel maxInner maxOuter) :
    f.getVertexInternalIdUpperBoundByType vlabel = maxInner + maxOuter := by
  unfold VertexRanges.getVertexInternalIdUpperBoundByType
  rw [h.getMaxInner, h.getMaxOuter]

theorem vertexOfId_internalId (h : SplitsLids f vlabel maxInner maxOuter)
    (hlists : InRanges f vlabel maxInner maxOuter inner outer) (hv : v ∈ inner ++ outer) :
    f.getVertexInternalIdByType vlabel v < maxInner + maxOuter ∧
      vertexOfId f vlabel maxInner (f.getVertexInternalIdByType vlabel v) = v := by
  rcases List.mem_append.mp hv with hv | hv
  · obtain ⟨o, ho, rfl⟩ := hlists.inner v hv
    rw [internalId_inner h ho]
    exact ⟨by omega, if_pos ho⟩
  · obtain ⟨ov, hov, rfl⟩ := hlists.outer v hv
    rw [internalId_outer h hov]
    refine ⟨by omega, ?_⟩
    unfold vertexOfId
    rw [if_neg (by omega), Nat.add_sub_cancel]

theorem internalIdBitmap_spec (h : SplitsLids f vlabel maxInner maxOuter)
    (hlists : InRanges f vlabel maxInner maxOuter inner outer) :
    ∃ bitmap, f.internalIdBitmap vlabel inner outer = .ok bitmap ∧ bitmap.size = byteSize (maxInner + maxOuter) ∧
      ∀ id, BitArray.getBit bitmap.bytes id = true ↔
        ∃ v ∈ inner ++ outer, f.getVertexInternalIdByType vlabel v = id := by
  have hfirst : ∀ v ∈ inner, f.getOffset v = f.getVertexInternalIdByType vlabel v ∧ f.getOffset v < maxInner := by
    intro v hv
    obtain ⟨o, ho, rfl⟩ := hlists.inner v hv
    rw [internalId_inner h ho, (h.inner ho).2.2]
    exact ⟨rfl, ho⟩
  have hsecond : ∀ v ∈ outer, f.getOffset v + maxInner = f.getVertexInternalIdByType vlabel v ∧
      f.getOffset v < maxOuter := by
    intro v hv
    obtain ⟨ov, hov, rfl⟩ := hlists.outer v hv
    rw [internalId_outer h hov, (h.outer hov).2.2]
    exact ⟨rfl, hov⟩
  obtain ⟨b, hrun, hsize, hbits⟩ := @setBits_spec _ f.getOffset inner (.zeros (byteSize (maxInner + maxOuter)))
    fun v hv => div_lt_byteSize (Nat.lt_of_lt_of_le (hfirst v hv).2 (Nat.le_add_right _ _))
  obtain ⟨b', hrun', hsize', hbits'⟩ := @setBits_spec _ (fun v => f.getOffset v + maxInner) outer b fun v hv => by
    rw [hsize]
    exact div_lt_byteSize (by have hlt := (hsecond v hv).2; omega)
  refine ⟨b', ?_, hsize'.trans hsize, fun id => ?_⟩
  · unfold VertexRanges.internalIdBitmap
    dsimp only
    rw [h.getMaxInner, h.getMaxOuter, hrun]
    exact hrun'
  · rw [hbits', hbits, getBit_zeros]
    constructor
    · rintro ((hzero | ⟨v, hv, rfl⟩) | ⟨v, hv, rfl⟩)
      · cases hzero
      · exact ⟨v, List.mem_append_left _ hv, (hfirst v hv).1.symm⟩
      · exact ⟨v, List.mem_append_right _ hv, (hsecond v hv).1.symm⟩
    · rintro ⟨v, hv, rfl⟩
      rcases List.mem_append.mp hv with hv | hv
      · exact Or.inl (Or.inr ⟨v, hv, (hfirst v hv).1⟩)
      · exact Or.inr ⟨v, hv, (hsecond v hv).1⟩

theorem toUInt64_natCast (h : id < 2 ^ 64) : toUInt64 id = id := by
  unfold toUInt64
  omega

theorem getVertexByInternalId_lt (h : SplitsLids f vlabel maxInner maxOuter)
    (hsize : bitmap.size = byteSize (maxInner + maxOuter)) (hid : id < maxInner + maxOuter) :
    f.getVertexByInternalIdByType bitmap vlabel id =
      .ok (if BitArray.getBit bitmap.bytes id then some (vertexOfId f vlabel maxInner id) else none) := by
  have hroom := h.room
  have hoffsets := h.offsets
  have hvalid : f.internalIdIsValid bitmap id vlabel = .ok (BitArray.getBit bitmap.bytes id) := by
    unfold VertexRanges.internalIdIsValid Bitmap.getBit
    rw [h.getMaxInner, h.getMaxOuter, if_neg (by omega), hsize, if_pos (Nat.le_of_lt (div_lt_byteSize hid))]
  unfold VertexRanges.getVertexByInternalIdByType
  rw [toUInt64_natCast (by omega), hvalid, h.getMaxInner]
  unfold vertexOfId
  rw [h.outerLid]
  cases BitArray.getBit bitmap.bytes id with
  | false => rfl
  | true =>
    by_cases hinner : id < maxInner
    · simp [hinner, bind, Except.bind, pure, Except.pure]
    · simp [hinner, bind, Except.bind, pure, Except.pure]

theorem getVertexByInternalId_end (h : SplitsLids f vlabel maxInner maxOuter)
    (hsize : bitmap.size = byteSize (maxInner + maxOuter))
    (hclear : BitArray.getBit bitmap.bytes (maxInner + maxOuter) = false) :
    f.getVertexByInternalIdByType bitmap vlabel (maxInner + maxOuter : Nat) = .ok none := by
  have hroom := h.room
  have hoffsets := h.offsets
  have hlast : (maxInner + maxOuter) / 8 ≤ byteSize (maxInner + maxOuter) := by
    unfold byteSize
    omega
  unfold VertexRanges.getVertexByInternalIdByType VertexRanges.internalIdIsValid Bitmap.getBit
  rw [toUInt64_natCast (by omega), h.getMaxInner, h.getMaxOuter, if_neg (Nat.lt_irrefl _), hsize, if_pos hlast, hclear]
  rfl

theorem getVertexByInternalId_gt (h : SplitsLids f vlabel maxInner maxOuter) {id : Int}
    (hword : -2 ^ 63 ≤ id ∧ id < 2 ^ 63) (hid : id < 0 ∨ ((maxInner + maxOuter : Nat) : Int) < id) :
    f.getVertexByInternalIdByType bitmap vlabel id = .ok none := by
  have hroom := h.room
  have hoffsets := h.offsets
  have hgt : maxInner + maxOuter < toUInt64 id := by
    unfold toUInt64
    omega
  unfold VertexRanges.getVertexByInternalIdByType VertexRanges.internalIdIsValid
  rw [h.getMaxInner, h.getMaxOuter, if_pos hgt]
  rfl

theorem internalIdsOk (h : SplitsLids f vlabel maxInner maxOuter)
    (hlists : InRanges f vlabel maxInner maxOuter inner outer) :
    ∃ bitmap, f.internalIdBitmap vlabel inner outer = .ok bitmap ∧
      InternalIdsOk f bitmap vlabel (inner ++ outer) := by
  obtain ⟨bitmap, hrun, hsize, hbits⟩ := internalIdBitmap_spec h hlists
  have hlookup := fun id => @getVertexByInternalId_lt f vlabel maxInner maxOuter id bitmap h hsize
  have hclear : BitArray.getBit bitmap.bytes (maxInner + maxOuter) = false := by
    refine Bool.eq_false_iff.mpr fun hset => ?_
    obtain ⟨v, hv, hid⟩ := (hbits _).mp hset
    have hlt := (vertexOfId_internalId h hlists hv).1
    omega
  have hend := getVertexByInternalId_end h hsize hclear
  refine ⟨bitmap, hrun, ?_, ?_, ?_, ?_⟩
  · intro v hv
    obtain ⟨hlt, hvertex⟩ := vertexOfId_internalId h hlists hv
    rw [upperBound_eq h, hlookup _ hlt, (hbits _).mpr ⟨v, hv, rfl⟩, if_pos rfl, hvertex]
    exact ⟨hlt, rfl⟩
  · intro id hid v hv
    rw [upperBound_eq h] at hid
    rw [hlookup id hid] at hv
    by_cases hset : BitArray.getBit bitmap.bytes id = true
    · obtain ⟨w, hw, rfl⟩ := (hbits id).mp hset
      rw [if_pos hset, (vertexOfId_internalId h hlists hw).2] at hv
      have hsame : w = v := Option.some.inj (Except.ok.inj hv)
      rw [← hsame]
      exact ⟨hw, rfl⟩
    · rw [if_neg hset] at hv
      cases hv
  · intro id hid hnot
    rw [upperBound_eq h] at hid
    rw [hlookup id hid, if_neg]
    intro hset
    obtain ⟨v, hv, hsame⟩ := (hbits id).mp hset
    exact hnot v hv hsame
  · intro id hlow hhigh hid
    rw [upperBound_eq h] at hid
    by_cases hlast : id = ((maxInner + maxOuter : Nat) : Int)
    · rw [hlast, hend]
    · exact getVertexByInternalId_gt h ⟨hlow, hhigh⟩ (by omega)

end ids

/-- In every snapshot the internal ids of a type and its listed vertices are translated to each other. -/
theorem internalIds_inverse (x : LabelSnapshot) :
    ∃ inner outer bitmap, x.innerVertices = some inner ∧ x.outerVertices = some outer ∧
      x.vertices = some (inner ++ outer) ∧ x.ranges.internalIdBitmap x.vlabel inner outer = .ok bitmap ∧
      InternalIdsOk x.ranges bitmap x.vlabel (inner ++ outer) := by
  obtain ⟨inner, outer, hinner, houter, hreads, hreads', hall⟩ := x.lists
  rw [← x.idParser] at hinner houter
  obtain ⟨bitmap, hrun, hok⟩ := internalIdsOk x.splits ⟨hinner, houter⟩
  exact ⟨inner, outer, bitmap, hreads, hreads', hall, hrun, hok⟩

end Gart.Fragment
