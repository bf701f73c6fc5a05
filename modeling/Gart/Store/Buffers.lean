import Gart.Lib.ByteMemory
import Gart.Seggraph.Writer

/-!
# The buffers of the store

`BufferManager` hands out space from the front of a buffer to its end, for strings and
for pages of properties.
-/

namespace Gart.Store
open Gart.ByteMemory

inductive StoreFault
  /-- the buffer of strings or of pages is full -/
  | bufferFull
  /-- a vector or a block is accessed behind its end -/
  | outOfBounds
  | nullPointer
  /-- `stoi` or `stoll` throws -/
  | badNumber
  /-- a data type without a writer -/
  | unsupported
  /-- the inner and the outer part of the vertex table meet -/
  | tableFull
  /-- `free` of a pointer that does not come from `malloc` -/
  | badFree
  | graph (stop : Seggraph.Stop)

/-! ### Strings -/

/-- The `BufferManager` of the strings. No buffer reaches the end of the addresses. -/
structure StringBuffer where
  capacity : Nat
  size : Nat := 0
  content : Memory
  capacity_le : capacity ≤ 2 ^ 47

theorem hundred_le : 100 ≤ 2 ^ 47 := by decide

namespace StringBuffer

/-- `BufferManager::put_cstring` (`buffer_manager.cc:73-92`) -/
def putBytes (b : StringBuffer) (text : Bytes) : Except StoreFault (Nat × StringBuffer) :=
  let newSize := b.size + text.length + 1
  if newSize ≥ b.capacity then .error .bufferFull
  else
    .ok (b.size, { b with
      size := newSize
      content := write (write b.content b.size text) (newSize - 1) [0] })

/-- `GraphStore::put_cstring` (`graph_store.h:389-393`): the offset and the length of the string. -/
def putCstring (b : StringBuffer) (text : Bytes) : Except StoreFault (Nat × StringBuffer) := do
  let (offset, b) ← b.putBytes text
  return (((offset <<< 16) ||| text.length) % 2 ^ 64, b)

/-- `BufferManager::get_string` (`buffer_manager.cc:113-116`) -/
def getString (b : StringBuffer) (key : Nat) : Bytes := read b.content (key >>> 16) (key &&& 0xffff)

/-- The key is that of `text`, which lies in the used part of the buffer. -/
structure Holds (b : StringBuffer) (key : Nat) (text : Bytes) : Prop where
  lt : key < 2 ^ 63
  inside : (key >>> 16) + text.length ≤ b.size
  length : key &&& 0xffff = text.length
  content : read b.content (key >>> 16) text.length = text

structure Extends (b b' : StringBuffer) : Prop where
  size : b.size ≤ b'.size
  content : ∀ x < b.size, b'.content x = b.content x

section strings
variable {b b' b'' : StringBuffer} {key : Nat} {text : Bytes}

theorem Extends.refl (b : StringBuffer) : b.Extends b := ⟨Nat.le_refl _, fun _ _ => rfl⟩

theorem Extends.trans (h : b.Extends b') (h' : b'.Extends b'') : b.Extends b'' :=
  ⟨Nat.le_trans h.size h'.size, fun x hx =>
    (h'.content x (Nat.lt_of_lt_of_le hx h.size)).trans (h.content x hx)⟩

theorem Holds.extends (h : b.Holds key text) (hext : b.Extends b') : b'.Holds key text where
  lt := h.lt
  inside := Nat.le_trans h.inside hext.size
  length := h.length
  content := by
    have hsame : read b'.content (key >>> 16) text.length = read b.content (key >>> 16) text.length :=
      read_congr fun x _ hx => hext.content x (Nat.lt_of_lt_of_le hx h.inside)
    rw [hsame]
    exact h.content

theorem Holds.getString (h : b.Holds key text) : b.getString key = text := by
  unfold StringBuffer.getString
  rw [h.length, h.content]

end strings

theorem key_parts {offset length : Nat} (hoffset : offset < 2 ^ 47) (hlength : length < 2 ^ 16) :
    ((offset <<< 16) ||| length) % 2 ^ 64 = offset * 2 ^ 16 + length ∧
      (offset * 2 ^ 16 + length) >>> 16 = offset ∧ (offset * 2 ^ 16 + length) &&& 0xffff = length := by
  have hor : (offset <<< 16) ||| length = offset * 2 ^ 16 + length := by
    rw [Nat.shiftLeft_eq, Nat.mul_comm]
    exact (Nat.two_pow_add_eq_or_of_lt hlength offset).symm
  refine ⟨?_, ?_, ?_⟩
  · rw [hor]
    exact Nat.mod_eq_of_lt (by omega)
  · rw [Nat.shiftRight_eq_div_pow]
    omega
  · show (offset * 2 ^ 16 + length) &&& (2 ^ 16 - 1) = length
    rw [Nat.and_two_pow_sub_one_eq_mod]
    omega

theorem putCstring_eq {b b' : StringBuffer} {text : Bytes} {key : Nat}
    (h : b.putCstring text = .ok (key, b')) : b.size + text.length + 1 < b.capacity ∧
      key = ((b.size <<< 16) ||| text.length) % 2 ^ 64 ∧ b' = { b with
        size := b.size + text.length + 1
        content := write (write b.content b.size text) (b.size + text.length) [0] } := by
  unfold putCstring putBytes at h
  dsimp only at h
  by_cases hfull : b.size + text.length + 1 ≥ b.capacity
  · rw [if_pos hfull] at h
    cases h
  · rw [if_neg hfull] at h
    obtain ⟨hkey, hb⟩ := Prod.mk.inj (Except.ok.inj h)
    exact ⟨Nat.not_le.mp hfull, hkey.symm, hb.symm⟩

theorem putCstring_extends {b b' : StringBuffer} {text : Bytes} {key : Nat}
    (h : b.putCstring text = .ok (key, b')) : b.Extends b' := by
  obtain ⟨-, -, rfl⟩ := putCstring_eq h
  constructor
  · show b.size ≤ b.size + text.length + 1
    omega
  · intro x hx
    show write (write b.content b.size text) _ [0] x = b.content x
    rw [write_outside (by omega), write_outside (by omega)]

theorem putCstring_spec {b b' : StringBuffer} {text : Bytes} {key : Nat} (hshort : text.length < 2 ^ 16)
    (h : b.putCstring text = .ok (key, b')) : b.Extends b' ∧ b'.Holds key text := by
  refine ⟨putCstring_extends h, ?_⟩
  obtain ⟨hroom, hkey, rfl⟩ := putCstring_eq h
  have hcap := b.capacity_le
  obtain ⟨hparts, hoffset, hlength⟩ := @key_parts b.size text.length (by omega) hshort
  rw [hparts] at hkey
  rw [hkey]
  constructor
  · omega
  · rw [hoffset]
    show b.size + text.length ≤ b.size + text.length + 1
    omega
  · exact hlength
  · rw [hoffset]
    show read (write (write b.content b.size text) _ [0]) b.size text.length = text
    rw [read_write_disjoint (by omega), read_write_same]

end StringBuffer

/-! ### Regions -/

/-- The `BufferManager` of the property pages; `blank` is what its memory holds at first. -/
structure RegionBuffer where
  capacity : Nat
  size : Nat := 0
  blank : Memory

/-- `get_region` (`buffer_manager.cc:94-111`): the offset of a region of `len` bytes. -/
def RegionBuffer.getRegion (b : RegionBuffer) (len : Nat) : Except StoreFault (Nat × RegionBuffer) :=
  let newSize := b.size + len
  if newSize ≥ b.capacity then .error .bufferFull
  else .ok (b.size, { b with size := newSize })

end Gart.Store
