import Gart.Store.Buffers

/-!
# A full string buffer (memory/buffer_manager.cc, graph_store.h)

`put_cstring` claims the bytes of a string before it compares with the capacity, and returns `-1`
when they do not fit. `GraphStore` makes a key of whatever it gets.
-/

namespace Gart.Store
open Gart.ByteMemory

namespace StringBuffer

/-- `size_t new_size` -/
def newSize (b : StringBuffer) (text : Bytes) : Nat := (b.size + text.length + 1) % 2 ^ 64

/-- `BufferManager::put_cstring` with its return value (`buffer_manager.cc:73-92`). -/
def managerPut (b : StringBuffer) (text : Bytes) : Nat × StringBuffer :=
  let offset := b.size
  let newSize := b.newSize text
  let b := { b with size := newSize }
  if newSize ≥ b.capacity then (2 ^ 64 - 1, b)
  else
    (offset, { b with content := write (write b.content offset text) ((newSize + 2 ^ 64 - 1) % 2 ^ 64) [0] })

/-- `GraphStore::put_cstring` with its return value (`graph_store.h:389-393`). -/
def storePut (b : StringBuffer) (text : Bytes) : Nat × StringBuffer :=
  let (offset, b) := b.managerPut text
  (((offset <<< 16) ||| text.length) % 2 ^ 64, b)

def NoRoom (b : StringBuffer) (text : Bytes) : Prop := b.capacity ≤ b.newSize text

instance (b : StringBuffer) (text : Bytes) : Decidable (b.NoRoom text) := inferInstanceAs (Decidable (_ ≤ _))

/-- The only test of a key: `insert` takes the other keys for null. -/
def IsString (key : Nat) : Prop := key &&& 0xffff ≠ 0

instance (key : Nat) : Decidable (IsString key) := inferInstanceAs (Decidable (_ ≠ _))

/-- A string without room leaves the buffer as it is, so that a shorter one can follow, and its key is none of a
string. -/
structure FailsCleanly (b : StringBuffer) (text : Bytes) : Prop where
  result : (b.managerPut text).1 = 2 ^ 64 - 1
  size : (b.managerPut text).2.size = b.size
  shorter : ∀ text', ¬ b.NoRoom text' → ¬ (b.managerPut text).2.NoRoom text'
  key : ¬ IsString (b.storePut text).1

section room
variable {b : StringBuffer} {text text' : Bytes}

theorem storePut_of_room (hshort : text.length < 2 ^ 63) (hsize : b.size ≤ b.capacity) (hroom : ¬ b.NoRoom text) :
    b.putCstring text = .ok (b.storePut text) := by
  have hcap := b.capacity_le
  have hno : b.newSize text = b.size + text.length + 1 := by
    unfold newSize
    exact Nat.mod_eq_of_lt (by omega)
  have hlt : ¬ b.size + text.length + 1 ≥ b.capacity := by
    rw [← hno]
    exact hroom
  have hlast : (b.size + text.length + 1 + 2 ^ 64 - 1) % 2 ^ 64 = b.size + text.length + 1 - 1 := by omega
  unfold putCstring putBytes storePut managerPut
  dsimp only
  rw [hno, if_neg hlt, if_neg hlt, hlast]
  rfl

theorem managerPut_of_noRoom (hroom : b.NoRoom text) :
    b.managerPut text = (2 ^ 64 - 1, { b with size := b.newSize text }) := by
  unfold managerPut
  exact if_pos hroom

theorem newSize_ne (hshort : text.length < 2 ^ 63) : b.newSize text ≠ b.size := by
  unfold newSize
  omega

theorem storePut_key_of_noRoom (hroom : b.NoRoom text) :
    IsString (b.storePut text).1 ↔ text.length % 2 ^ 16 ≠ 0 := by
  have hkey : (b.storePut text).1 &&& 0xffff = text.length % 2 ^ 16 := by
    unfold storePut
    rw [managerPut_of_noRoom hroom]
    dsimp only
    have hmask : ∀ x : Nat, x &&& 0xffff = x % 2 ^ 16 := fun x => Nat.and_two_pow_sub_one_eq_mod x 16
    rw [hmask, Nat.mod_mod_of_dvd _ (by decide : 2 ^ 16 ∣ 2 ^ 64), Nat.or_mod_two_pow]
    have hzero : ((2 ^ 64 - 1) <<< 16) % 2 ^ 16 = 0 := by decide
    rw [hzero, Nat.zero_or]
  unfold IsString
  rw [hkey]

/-- No string without room is refused cleanly: the size moves, and a key of a string is made of the failure unless the
length ends in sixteen zeros. -/
theorem not_failsCleanly (b : StringBuffer) (text : Bytes) (hshort : text.length < 2 ^ 63) (hroom : b.NoRoom text) :
    ¬ b.FailsCleanly text ∧ (b.managerPut text).2.size ≠ b.size ∧
      (IsString (b.storePut text).1 ↔ text.length % 2 ^ 16 ≠ 0) := by
  have hsize : (b.managerPut text).2.size ≠ b.size := by
    rw [managerPut_of_noRoom hroom]
    exact newSize_ne hshort
  exact ⟨fun h => hsize h.size, hsize, storePut_key_of_noRoom hroom⟩

end room

def eightBytes : StringBuffer := { capacity := 8, content := fun _ => 0, capacity_le := by decide }

theorem not_failsCleanly_eightBytes : ¬ eightBytes.FailsCleanly (List.replicate 9 97) ∧
    (eightBytes.managerPut (List.replicate 9 97)).2.size ≠ eightBytes.size ∧
      (IsString (eightBytes.storePut (List.replicate 9 97)).1 ↔ (List.replicate 9 97 : Bytes).length % 2 ^ 16 ≠ 0) :=
  not_failsCleanly eightBytes (List.replicate 9 97) (by decide) (by decide)

/-- Nine characters do not fit into eight bytes; then three do not fit either, and the nine have the key of a string
of nine characters. -/
theorem exhausted_eightBytes : ¬ ∀ (b : StringBuffer) (text : Bytes), b.NoRoom text →
    ((b.managerPut text).2.size = b.size ∧ ∀ text', ¬ b.NoRoom text' → ¬ (b.managerPut text).2.NoRoom text') ∧
      ¬ IsString (b.storePut text).1 := by
  intro h
  obtain ⟨⟨-, hshorter⟩, -⟩ := h eightBytes (List.replicate 9 97) (by decide)
  exact hshorter (List.replicate 3 97) (by decide) (by decide)

end StringBuffer

end Gart.Store
