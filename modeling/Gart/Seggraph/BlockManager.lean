import Mathlib.Algebra.Ring.Nat
import Mathlib.Logic.Function.Basic
import Mathlib.Data.List.Nodup

/-!
# The block manager (seggraph/block_manager.hpp)

A bump allocator over one buffer of `capacity` bytes with a stack of free
blocks for each order. `free_blocks` (orders below `LARGE_BLOCK_THRESHOLD`) and
`large_free_blocks` never share an order, so one table holds both. Pointers are
offsets into the buffer, and offset `0` is reserved as the null pointer. The
counter is a natural number here; `BlockCounter` has it as a `size_t` and shows
that the two agree until the requests add up to `2 ^ 64`.
-/

namespace Gart.Seggraph

/-- `LARGE_BLOCK_THRESHOLD` (`block_manager.hpp:185`) -/
def largeBlockThreshold : Nat := 20

/-- `BlockManager` (`block_manager.hpp:37-187`) -/
structure BlockManager where
  capacity : Nat
  /-- `used_size`, until it wraps -/
  usedSize : Nat
  /-- free blocks by order, the back of the vector first -/
  freeBlocks : Nat → List Nat

namespace BlockManager

/-- `getUsedMemory` (`block_manager.hpp:77-86`): the free blocks of the orders below `LARGE_BLOCK_THRESHOLD + 20` are
not counted as used. -/
def getUsedMemory (bm : BlockManager) : Nat :=
  (List.range (largeBlockThreshold + 20)).foldl
    (fun ret i => ret - (bm.freeBlocks i).length * 2 ^ i) bm.usedSize

/-- `BlockManager::pop` (`block_manager.hpp:168-176`) -/
def pop (bm : BlockManager) (order : Nat) : Nat × BlockManager :=
  match bm.freeBlocks order with
  | [] => (0, bm)
  | pointer :: rest =>
    (pointer, { bm with freeBlocks := Function.update bm.freeBlocks order rest })

/-- `alloc` (`block_manager.hpp:90-129`); a failing call (result `0`) has already moved `used_size`. -/
def alloc (bm : BlockManager) (order : Nat) : Nat × BlockManager :=
  let popped := bm.pop order
  if popped.1 = 0 then
    let pointer := popped.2.usedSize
    let bm' : BlockManager := { popped.2 with usedSize := pointer + 2 ^ order }
    if bm'.getUsedMemory > bm'.capacity then (0, bm') else (pointer, bm')
  else
    popped

/-- `BlockManager::free` (`block_manager.hpp:131-138`) -/
def free (bm : BlockManager) (block order : Nat) : BlockManager :=
  { bm with freeBlocks := Function.update bm.freeBlocks order (block :: bm.freeBlocks order) }

/-- The constructor takes the null holder, so that no block lies at offset 0. -/
def create (capacity : Nat) : BlockManager :=
  (alloc { capacity := capacity, usedSize := 0, freeBlocks := fun _ => [] } largeBlockThreshold).2

/-! ### Blocks that may still be handed out -/

/-- Offsets that `alloc` may return: behind the used part, or on a free list. -/
def Available (bm : BlockManager) (pointer : Nat) : Prop :=
  bm.usedSize ≤ pointer ∨ ∃ order, pointer ∈ bm.freeBlocks order

/-- No block is free twice, none is the null holder, and all lie in the used part. -/
structure WellFormed (bm : BlockManager) : Prop where
  used_pos : 0 < bm.usedSize
  nodup : ∀ order, (bm.freeBlocks order).Nodup
  disjoint : ∀ order order' pointer, pointer ∈ bm.freeBlocks order →
    pointer ∈ bm.freeBlocks order' → order = order'
  used : ∀ order pointer, pointer ∈ bm.freeBlocks order → 0 < pointer ∧ pointer < bm.usedSize

theorem create_eq (capacity : Nat) : create capacity =
    { capacity := capacity, usedSize := 2 ^ largeBlockThreshold, freeBlocks := fun _ => [] } := by
  simp [create, alloc, pop]

theorem create_wellFormed (capacity : Nat) : (create capacity).WellFormed := by
  rw [create_eq]
  refine ⟨?_, ?_, ?_, ?_⟩
  · exact Nat.two_pow_pos _
  · intro order
    simp
  · intro order order' pointer h
    simp at h
  · intro order pointer h
    simp at h

/-- What a successful `alloc` hands out was available and is no longer. -/
structure Alloc (bm : BlockManager) (pointer : Nat) (bm' : BlockManager) : Prop where
  pos : 0 < pointer
  was : bm.Available pointer
  now : ¬ bm'.Available pointer
  shrink : ∀ q, bm'.Available q → bm.Available q
  wellFormed : bm'.WellFormed
  capacity : bm'.capacity = bm.capacity

theorem alloc_pop {bm : BlockManager} (hbm : bm.WellFormed) {order pointer : Nat}
    {rest : List Nat} (hlist : bm.freeBlocks order = pointer :: rest) :
    bm.alloc order =
        (pointer, { bm with freeBlocks := Function.update bm.freeBlocks order rest })
      ∧ Alloc bm pointer
        { bm with freeBlocks := Function.update bm.freeBlocks order rest } := by
  have hmem : pointer ∈ bm.freeBlocks order := by simp [hlist]
  have hused := hbm.used order pointer hmem
  have hnodup := hbm.nodup order
  rw [hlist, List.nodup_cons] at hnodup
  have hsub : ∀ o q, q ∈ Function.update bm.freeBlocks order rest o → q ∈ bm.freeBlocks o := by
    intro o q hq
    by_cases ho : o = order
    · subst ho
      rw [Function.update_self] at hq
      rw [hlist]
      exact List.mem_cons_of_mem _ hq
    · rwa [Function.update_of_ne ho] at hq
  refine ⟨?_, ⟨hused.1, Or.inr ⟨order, hmem⟩, ?_, ?_, ?_, rfl⟩⟩
  · have hne : ¬ pointer = 0 := by omega
    simp only [alloc, pop, hlist, if_neg hne]
  · rintro (hge | ⟨o, ho⟩)
    · simp only at hge
      omega
    · by_cases hoo : o = order
      · subst hoo
        simp only [Function.update_self] at ho
        exact hnodup.1 ho
      · exact hoo (hbm.disjoint o order pointer (hsub o pointer ho) hmem)
  · rintro q (hq | ⟨o, ho⟩)
    · exact Or.inl hq
    · exact Or.inr ⟨o, hsub o q ho⟩
  · refine ⟨hbm.used_pos, ?_, ?_, ?_⟩
    · intro o
      by_cases ho : o = order
      · subst ho
        simpa using hnodup.2
      · simpa [Function.update_of_ne ho] using hbm.nodup o
    · intro o o' q hq hq'
      exact hbm.disjoint o o' q (hsub o q hq) (hsub o' q hq')
    · intro o q hq
      exact hbm.used o q (hsub o q hq)

theorem alloc_bump {bm : BlockManager} (hbm : bm.WellFormed) {order : Nat}
    (hlist : bm.freeBlocks order = []) :
    ((bm.alloc order).1 = 0 ∨ (bm.alloc order).1 = bm.usedSize)
      ∧ (bm.alloc order).2 = { bm with usedSize := bm.usedSize + 2 ^ order }
      ∧ Alloc bm bm.usedSize { bm with usedSize := bm.usedSize + 2 ^ order } := by
  have hpow : 0 < 2 ^ order := Nat.two_pow_pos order
  refine ⟨?_, ?_, ⟨hbm.used_pos, Or.inl (Nat.le_refl _), ?_, ?_, ?_, rfl⟩⟩
  · simp only [alloc, pop, hlist, if_true]
    split
    · exact Or.inl rfl
    · exact Or.inr rfl
  · simp only [alloc, pop, hlist, if_true]
    split <;> rfl
  · rintro (hge | ⟨o, ho⟩)
    · simp only at hge
      omega
    · have hlt := (hbm.used o bm.usedSize ho).2
      omega
  · rintro q (hq | ⟨o, ho⟩)
    · simp only at hq
      exact Or.inl (by omega)
    · exact Or.inr ⟨o, ho⟩
  · refine ⟨?_, hbm.nodup, hbm.disjoint, ?_⟩
    · simp only
      omega
    · intro o q hq
      have hlt := hbm.used o q hq
      simp only
      omega

theorem alloc_spec {bm : BlockManager} (hbm : bm.WellFormed) (order : Nat) :
    (bm.alloc order).1 = 0 ∨ Alloc bm (bm.alloc order).1 (bm.alloc order).2 := by
  cases hlist : bm.freeBlocks order with
  | nil =>
    obtain ⟨hptr, hbm', halloc⟩ := alloc_bump hbm hlist
    rcases hptr with h0 | h1
    · exact Or.inl h0
    · rw [h1, hbm']
      exact Or.inr halloc
  | cons pointer rest =>
    obtain ⟨heq, halloc⟩ := alloc_pop hbm hlist
    rw [heq]
    exact Or.inr halloc

theorem free_available {bm : BlockManager} {block order q : Nat} :
    (bm.free block order).Available q ↔ bm.Available q ∨ q = block := by
  simp only [Available, free]
  constructor
  · rintro (hq | ⟨o, ho⟩)
    · exact Or.inl (Or.inl hq)
    · by_cases hoo : o = order
      · subst hoo
        rw [Function.update_self, List.mem_cons] at ho
        rcases ho with rfl | ho
        · exact Or.inr rfl
        · exact Or.inl (Or.inr ⟨o, ho⟩)
      · rw [Function.update_of_ne hoo] at ho
        exact Or.inl (Or.inr ⟨o, ho⟩)
  · rintro ((hq | ⟨o, ho⟩) | rfl)
    · exact Or.inl hq
    · refine Or.inr ⟨o, ?_⟩
      by_cases hoo : o = order
      · subst hoo
        rw [Function.update_self]
        exact List.mem_cons_of_mem _ ho
      · rwa [Function.update_of_ne hoo]
    · exact Or.inr ⟨order, by rw [Function.update_self]; exact List.mem_cons_self⟩

theorem free_wellFormed {bm : BlockManager} (hbm : bm.WellFormed) {block order : Nat}
    (hpos : 0 < block) (hout : ¬ bm.Available block) : (bm.free block order).WellFormed := by
  simp only [Available, not_or, Nat.not_le, not_exists] at hout
  obtain ⟨hlt, hnot⟩ := hout
  have hmem : ∀ o q, q ∈ (bm.free block order).freeBlocks o →
      (q = block ∧ o = order) ∨ q ∈ bm.freeBlocks o := by
    intro o q hq
    simp only [free] at hq
    by_cases ho : o = order
    · subst ho
      rw [Function.update_self, List.mem_cons] at hq
      rcases hq with rfl | hq
      · exact Or.inl ⟨rfl, rfl⟩
      · exact Or.inr hq
    · rw [Function.update_of_ne ho] at hq
      exact Or.inr hq
  refine ⟨hbm.used_pos, ?_, ?_, ?_⟩
  · intro o
    simp only [free]
    by_cases ho : o = order
    · subst ho
      rw [Function.update_self, List.nodup_cons]
      exact ⟨hnot o, hbm.nodup o⟩
    · rw [Function.update_of_ne ho]
      exact hbm.nodup o
  · intro o o' q hq hq'
    rcases hmem o q hq with ⟨rfl, rfl⟩ | h
    · rcases hmem o' q hq' with ⟨-, rfl⟩ | h'
      · rfl
      · exact absurd h' (hnot o')
    · rcases hmem o' q hq' with ⟨rfl, rfl⟩ | h'
      · exact absurd h (hnot o)
      · exact hbm.disjoint o o' q h h'
  · intro o q hq
    rcases hmem o q hq with ⟨rfl, -⟩ | h
    · exact ⟨hpos, hlt⟩
    · exact hbm.used o q h

end BlockManager

end Gart.Seggraph
