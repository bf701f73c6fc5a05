import Mathlib.Data.List.Basic
import Mathlib.Data.UInt
import Mathlib.Tactic.Ring

/-!
# Byte-addressed memory

A memory maps addresses to bytes. Byte strings are read and written at an
address, and unsigned numbers are kept in little-endian order. Two rules carry
every proof about such a memory: what was written is read back, and a write
changes nothing outside its own range.
-/

namespace Gart.ByteMemory

abbrev Bytes := List UInt8

abbrev Memory := Nat → UInt8

/-- The `n` bytes from address `a` on. -/
def read (m : Memory) (a n : Nat) : Bytes :=
  (List.range n).map fun i => m (a + i)

/-- Store the byte string `bs` from address `a` on. -/
def write (m : Memory) (a : Nat) (bs : Bytes) : Memory := fun x =>
  if a ≤ x ∧ x < a + bs.length then bs.getD (x - a) 0 else m x

/-! ### Little-endian numbers -/

/-- The `n` low bytes of `v`, least significant first. -/
def toBytes : Nat → Nat → Bytes
  | 0, _ => []
  | n + 1, v => UInt8.ofNat v :: toBytes n (v / 256)

/-- The number a byte string stands for, least significant byte first. -/
def ofBytes : Bytes → Nat
  | [] => 0
  | b :: bs => b.toNat + 256 * ofBytes bs

@[simp] theorem toBytes_length (n v : Nat) : (toBytes n v).length = n := by
  induction n generalizing v with
  | zero => rfl
  | succ n ih => simp only [toBytes, List.length_cons, ih]

theorem ofBytes_toBytes (n v : Nat) : ofBytes (toBytes n v) = v % 256 ^ n := by
  induction n generalizing v with
  | zero => simp only [toBytes, ofBytes, Nat.pow_zero, Nat.mod_one]
  | succ n ih =>
    have hbyte : (UInt8.ofNat v).toNat = v % 256 := by simp
    have hpow : 256 ^ (n + 1) = 256 * 256 ^ n := by ring
    simp only [toBytes, ofBytes, ih, hbyte, hpow]
    rw [Nat.mod_mul]

theorem ofBytes_lt (bs : Bytes) : ofBytes bs < 256 ^ bs.length := by
  induction bs with
  | nil => simp [ofBytes]
  | cons b rest ih =>
    have hb : b.toNat < 256 := b.toNat_lt
    have hpow : 256 ^ (b :: rest).length = 256 * 256 ^ rest.length := by
      rw [List.length_cons, Nat.pow_succ, Nat.mul_comm]
    simp only [ofBytes, hpow]
    omega

/-- The unsigned `n`-byte number at address `a`. -/
def load (m : Memory) (a n : Nat) : Nat := ofBytes (read m a n)

/-- Store the `n` low bytes of `v` at address `a`. -/
def store (m : Memory) (a n v : Nat) : Memory := write m a (toBytes n v)

/-! ### What was written is read back -/

@[simp] theorem read_length (m : Memory) (a n : Nat) : (read m a n).length = n := by
  simp [read]

theorem load_lt (m : Memory) (a n : Nat) : load m a n < 256 ^ n := by
  have h := ofBytes_lt (read m a n)
  rwa [read_length] at h

theorem read_congr {m m' : Memory} {a n : Nat}
    (h : ∀ x, a ≤ x → x < a + n → m x = m' x) : read m a n = read m' a n := by
  unfold read
  apply List.map_congr_left
  intro i hi
  have hlt : i < n := List.mem_range.mp hi
  exact h (a + i) (by omega) (by omega)

theorem read_write_same (m : Memory) (a : Nat) (bs : Bytes) :
    read (write m a bs) a bs.length = bs := by
  apply List.ext_getElem
  · simp
  · intro i h1 h2
    have hin : a ≤ a + i ∧ a + i < a + bs.length := by omega
    have hsub : a + i - a = i := by omega
    simp only [read, write, List.getElem_map, List.getElem_range, if_pos hin, hsub]
    simp [h2]

theorem read_write_inside {m : Memory} {a b n : Nat} {bs : Bytes} (hstart : a ≤ b) (hstop : b + n ≤ a + bs.length) :
    read (write m a bs) b n = (bs.drop (b - a)).take n := by
  apply List.ext_getElem
  · simp only [read_length, List.length_take, List.length_drop]
    omega
  · intro i hi _
    rw [read_length] at hi
    simp only [read, write, List.getElem_map, List.getElem_range, List.getElem_take, List.getElem_drop]
    have hlt : b - a + i < bs.length := by omega
    have hidx : b + i - a = b - a + i := by omega
    rw [if_pos (by omega), hidx, List.getD_eq_getElem?_getD, List.getElem?_eq_getElem hlt, Option.getD_some]

theorem read_write_of_length {m : Memory} {a n : Nat} {bs : Bytes} (h : bs.length = n) :
    read (write m a bs) a n = bs := by
  rw [← h]
  exact read_write_same m a bs

theorem write_nil (m : Memory) (a : Nat) : write m a [] = m := by
  funext x
  have hout : ¬ (a ≤ x ∧ x < a + ([] : Bytes).length) := by simp only [List.length_nil]; omega
  simp only [write, if_neg hout]

theorem write_read_self (m : Memory) (a n : Nat) : write m a (read m a n) = m := by
  funext x
  by_cases hin : a ≤ x ∧ x < a + n
  · have hx : a + (x - a) = x := by omega
    have hlt : x - a < n := by omega
    simp only [write, read_length, if_pos hin]
    rw [read, List.getD_eq_getElem?_getD, List.getElem?_map, List.getElem?_range hlt, Option.map_some, hx]
    rfl
  · simp only [write, read_length, if_neg hin]

theorem read_write_read {m source : Memory} {a b k n size : Nat} (h : k + size ≤ n) :
    read (write m a (read source b n)) (a + k) size = read source (b + k) size := by
  unfold read
  apply List.map_congr_left
  intro i hi
  have hlt : i < size := List.mem_range.mp hi
  have hin : a ≤ a + k + i ∧ a + k + i < a + (List.map (fun i => source (b + i)) (List.range n)).length := by
    simp only [List.length_map, List.length_range]
    omega
  have hsub : a + k + i - a = k + i := by omega
  simp only [write, if_pos hin, hsub]
  rw [List.getD_eq_getElem?_getD, List.getElem?_map, List.getElem?_range (by omega), Nat.add_assoc]
  rfl

/-! ### A write changes nothing outside its range -/

theorem write_outside {m : Memory} {a x : Nat} {bs : Bytes}
    (h : x < a ∨ a + bs.length ≤ x) : write m a bs x = m x := by
  have hout : ¬ (a ≤ x ∧ x < a + bs.length) := by omega
  simp only [write, if_neg hout]

theorem store_outside {m : Memory} {a n v x : Nat} (h : x < a ∨ a + n ≤ x) :
    store m a n v x = m x :=
  write_outside (by simpa only [toBytes_length] using h)

theorem read_write_disjoint {m : Memory} {a b n : Nat} {bs : Bytes}
    (h : b + n ≤ a ∨ a + bs.length ≤ b) : read (write m a bs) b n = read m b n := by
  apply read_congr
  intro x hx1 hx2
  exact write_outside (by omega)

theorem load_write_disjoint {m : Memory} {a b n : Nat} {bs : Bytes}
    (h : b + n ≤ a ∨ a + bs.length ≤ b) : load (write m a bs) b n = load m b n := by
  unfold load
  rw [read_write_disjoint h]

theorem read_store_disjoint {m : Memory} {a b n k v : Nat}
    (h : b + n ≤ a ∨ a + k ≤ b) : read (store m a k v) b n = read m b n := by
  unfold store
  apply read_write_disjoint
  simpa only [toBytes_length] using h

theorem load_store_disjoint {m : Memory} {a b n k v : Nat}
    (h : b + n ≤ a ∨ a + k ≤ b) : load (store m a k v) b n = load m b n := by
  unfold load
  rw [read_store_disjoint h]

theorem load_store_same (m : Memory) (a n v : Nat) :
    load (store m a n v) a n = v % 256 ^ n := by
  unfold load store
  rw [read_write_of_length (toBytes_length n v), ofBytes_toBytes]

theorem load_store_of_lt {m : Memory} {a n v : Nat} (h : v < 256 ^ n) :
    load (store m a n v) a n = v := by
  rw [load_store_same, Nat.mod_eq_of_lt h]

end Gart.ByteMemory
