import Gart.Lib.Steps
import Gart.Seggraph.BlockManager

/-!
# Histories of the block manager

Blocks never overlap. They stay inside the buffer as long as the new ones do: the
limit is put on the used memory, from which the free blocks are taken off, and not
on the end of the used part.
-/

namespace Gart.Seggraph
open Gart.Steps

structure MemBlock where
  pointer : Nat
  order : Nat
  deriving DecidableEq

namespace MemBlock

def stop (b : MemBlock) : Nat := b.pointer + 2 ^ b.order

def Disjoint (b c : MemBlock) : Prop := b.stop ≤ c.pointer ∨ c.stop ≤ b.pointer

theorem disjoint_comm {b c : MemBlock} : b.Disjoint c ↔ c.Disjoint b := Or.comm

end MemBlock

/-- The manager and the blocks handed out and not freed. -/
structure Heap where
  bm : BlockManager
  live : List MemBlock

inductive HeapCall
  | alloc (order : Nat)
  | free (b : MemBlock)

namespace Heap

def init (capacity : Nat) : Heap := ⟨.create capacity, []⟩

def step (h : Heap) : HeapCall → Heap
  | .alloc order =>
    let (pointer, bm) := h.bm.alloc order
    ⟨bm, if pointer = 0 then h.live else ⟨pointer, order⟩ :: h.live⟩
  | .free b => ⟨h.bm.free b.pointer b.order, h.live.erase b⟩

def Known (h : Heap) (b : MemBlock) : Prop := b ∈ h.live ∨ b.pointer ∈ h.bm.freeBlocks b.order

/-- The used memory with one more block of the order is above the limit. -/
def Refused (h : Heap) (order : Nat) : Prop :=
  h.bm.capacity < { h.bm with usedSize := h.bm.usedSize + 2 ^ order }.getUsedMemory

/-- With no free block of the order, the next block ends inside the buffer, or the request is
refused without a wrap of `used_size`. -/
def Fits (h : Heap) (order : Nat) : Prop :=
  h.bm.freeBlocks order = [] → h.bm.usedSize + 2 ^ order < 2 ^ 64 ∧
    (¬ h.Refused order → h.bm.usedSize + 2 ^ order ≤ h.bm.capacity)

instance (h : Heap) (order : Nat) : Decidable (h.Refused order) :=
  inferInstanceAs (Decidable (_ < _))

instance (h : Heap) (order : Nat) : Decidable (h.Fits order) :=
  inferInstanceAs (Decidable (_ = [] → _ ∧ (¬ h.Refused order → _)))

def Legal (h : Heap) : HeapCall → Prop
  | .alloc _ => True
  | .free b => b ∈ h.live

def Ok (h : Heap) : HeapCall → Prop
  | .alloc order => h.Fits order
  | .free b => b ∈ h.live

instance (h : Heap) : (call : HeapCall) → Decidable (h.Legal call)
  | .alloc _ => inferInstanceAs (Decidable True)
  | .free b => inferInstanceAs (Decidable (b ∈ h.live))

instance (h : Heap) : (call : HeapCall) → Decidable (h.Ok call)
  | .alloc order => inferInstanceAs (Decidable (h.Fits order))
  | .free b => inferInstanceAs (Decidable (b ∈ h.live))

end Heap

/-! ### The blocks and the used part -/

/-- Blocks behind the null holder, in the used part and the buffer, none on another. -/
structure Laid (capacity usedSize : Nat) (known : MemBlock → Prop) : Prop where
  above : ∀ b, known b → 2 ^ largeBlockThreshold ≤ b.pointer
  below : ∀ b, known b → b.stop ≤ usedSize
  inside : ∀ b, known b → b.stop ≤ capacity
  disjoint : ∀ b c, known b → known c → b ≠ c → b.Disjoint c

section laid
variable {capacity usedSize usedSize' : Nat} {known known' : MemBlock → Prop}

theorem Laid.congr (h : Laid capacity usedSize known) (hsame : ∀ b, known' b ↔ known b)
    (hle : usedSize ≤ usedSize') : Laid capacity usedSize' known' := by
  have hknown : known' = known := funext fun b => propext (hsame b)
  rw [hknown]
  exact ⟨h.above, fun b hb => Nat.le_trans (h.below b hb) hle, h.inside, h.disjoint⟩

theorem Laid.add (h : Laid capacity usedSize known) (hholder : 2 ^ largeBlockThreshold ≤ usedSize)
    {order : Nat} (hfits : usedSize + 2 ^ order ≤ capacity)
    (hsame : ∀ b, known' b ↔ known b ∨ b = ⟨usedSize, order⟩) :
    Laid capacity (usedSize + 2 ^ order) known' := by
  have hnew : ∀ b, known b → b.Disjoint ⟨usedSize, order⟩ := fun b hb => Or.inl (h.below b hb)
  constructor
  · intro b hb
    rcases (hsame b).mp hb with hb | rfl
    · exact h.above b hb
    · exact hholder
  · intro b hb
    rcases (hsame b).mp hb with hb | rfl
    · exact Nat.le_trans (h.below b hb) (Nat.le_add_right _ _)
    · exact Nat.le_refl _
  · intro b hb
    rcases (hsame b).mp hb with hb | rfl
    · exact h.inside b hb
    · exact hfits
  · intro b c hb hc hne
    rcases (hsame b).mp hb with hb | rfl <;> rcases (hsame c).mp hc with hc | rfl
    · exact h.disjoint b c hb hc hne
    · exact hnew b hb
    · exact MemBlock.disjoint_comm.mp (hnew c hc)
    · exact absurd rfl hne

end laid

namespace Heap

structure Inv (capacity : Nat) (h : Heap) : Prop where
  capacity_eq : h.bm.capacity = capacity
  holder : 2 ^ largeBlockThreshold ≤ h.bm.usedSize
  laid : Laid capacity h.bm.usedSize h.Known
  nodup : h.live.Nodup
  free_nodup : ∀ order, (h.bm.freeBlocks order).Nodup
  not_free : ∀ b ∈ h.live, b.pointer ∉ h.bm.freeBlocks b.order

section steps
variable {capacity order pointer : Nat} {h : Heap} {rest : List Nat} {b : MemBlock}

theorem inv_init (capacity : Nat) : (init capacity).Inv capacity := by
  have hnone : ∀ b, ¬ (init capacity).Known b := by
    intro b hb
    unfold Known init at hb
    rw [BlockManager.create_eq] at hb
    simp at hb
  constructor
  · exact congrArg BlockManager.capacity (BlockManager.create_eq capacity)
  · exact Nat.le_of_eq (congrArg BlockManager.usedSize (BlockManager.create_eq capacity)).symm
  · exact ⟨fun b hb => absurd hb (hnone b), fun b hb => absurd hb (hnone b),
      fun b hb => absurd hb (hnone b), fun b _ hb => absurd hb (hnone b)⟩
  · exact List.nodup_nil
  · intro order
    unfold init
    rw [BlockManager.create_eq]
    exact List.nodup_nil
  · intro b hb
    cases hb

theorem step_pop (hpos : pointer ≠ 0) (hlist : h.bm.freeBlocks order = pointer :: rest) :
    h.step (.alloc order) =
      ⟨{ h.bm with freeBlocks := Function.update h.bm.freeBlocks order rest }, ⟨pointer, order⟩ :: h.live⟩ := by
  unfold step BlockManager.alloc BlockManager.pop
  simp only [hlist, if_neg hpos]

theorem step_refused (hlist : h.bm.freeBlocks order = []) (hrefused : h.Refused order) :
    h.step (.alloc order) = ⟨{ h.bm with usedSize := h.bm.usedSize + 2 ^ order }, h.live⟩ := by
  unfold Refused at hrefused
  unfold step BlockManager.alloc BlockManager.pop
  simp only [hlist, if_true, gt_iff_lt, if_pos hrefused]

theorem step_new (hused : h.bm.usedSize ≠ 0) (hlist : h.bm.freeBlocks order = [])
    (hrefused : ¬ h.Refused order) :
    h.step (.alloc order) = ⟨{ h.bm with usedSize := h.bm.usedSize + 2 ^ order },
      ⟨h.bm.usedSize, order⟩ :: h.live⟩ := by
  unfold Refused at hrefused
  unfold step BlockManager.alloc BlockManager.pop
  simp only [hlist, if_true, gt_iff_lt, if_neg hrefused, if_neg hused]

theorem known_pop (hlist : h.bm.freeBlocks order = pointer :: rest) (b : MemBlock) :
    Known ⟨{ h.bm with freeBlocks := Function.update h.bm.freeBlocks order rest },
      ⟨pointer, order⟩ :: h.live⟩ b ↔ h.Known b := by
  obtain ⟨bp, bo⟩ := b
  unfold Known
  dsimp only
  by_cases ho : bo = order
  · subst ho
    rw [Function.update_self, hlist, List.mem_cons, List.mem_cons, MemBlock.mk.injEq]
    tauto
  · rw [Function.update_of_ne ho, List.mem_cons, MemBlock.mk.injEq]
    tauto

theorem known_free (hb : b ∈ h.live) (hnodup : h.live.Nodup) (c : MemBlock) :
    (h.step (.free b)).Known c ↔ h.Known c := by
  unfold Known step BlockManager.free
  dsimp only
  rw [hnodup.mem_erase_iff]
  by_cases ho : c.order = b.order
  · rw [ho, Function.update_self, List.mem_cons]
    have hsame : c.pointer = b.pointer ↔ c = b := by
      constructor
      · intro hp
        cases c
        cases b
        simp_all
      · rintro rfl
        rfl
    rw [hsame]
    by_cases hc : c = b
    · subst hc
      simp [hb]
    · simp [hc]
  · have hc : c ≠ b := by
      rintro rfl
      exact ho rfl
    rw [Function.update_of_ne ho]
    simp [hc]

theorem inv_pop (hinv : h.Inv capacity) (hlist : h.bm.freeBlocks order = pointer :: rest) :
    (h.step (.alloc order)).Inv capacity := by
  have hknown : h.Known ⟨pointer, order⟩ := Or.inr (by rw [hlist]; exact List.mem_cons_self)
  have hpos : pointer ≠ 0 := by
    have habove := hinv.laid.above _ hknown
    have hholder : 0 < 2 ^ largeBlockThreshold := Nat.two_pow_pos _
    dsimp only at habove
    omega
  have hnodup := hinv.free_nodup order
  rw [hlist, List.nodup_cons] at hnodup
  rw [step_pop hpos hlist]
  constructor
  · exact hinv.capacity_eq
  · exact hinv.holder
  · exact hinv.laid.congr (known_pop hlist) (Nat.le_refl _)
  · refine List.nodup_cons.mpr ⟨fun hmem => ?_, hinv.nodup⟩
    refine hinv.not_free _ hmem ?_
    rw [hlist]
    exact List.mem_cons_self
  · intro o
    dsimp only
    by_cases ho : o = order
    · rw [ho, Function.update_self]
      exact hnodup.2
    · rw [Function.update_of_ne ho]
      exact hinv.free_nodup o
  · intro b hb
    dsimp only
    rcases List.mem_cons.mp hb with rfl | hb
    · rw [Function.update_self]
      exact hnodup.1
    · by_cases ho : b.order = order
      · have hnot := hinv.not_free b hb
        rw [ho, hlist, List.mem_cons, not_or] at hnot
        rw [ho, Function.update_self]
        exact hnot.2
      · rw [Function.update_of_ne ho]
        exact hinv.not_free b hb

theorem inv_refused (hinv : h.Inv capacity) (hlist : h.bm.freeBlocks order = [])
    (hrefused : h.Refused order) : (h.step (.alloc order)).Inv capacity := by
  rw [step_refused hlist hrefused]
  exact ⟨hinv.capacity_eq, Nat.le_add_right_of_le hinv.holder,
    hinv.laid.congr (fun _ => Iff.rfl) (Nat.le_add_right _ _), hinv.nodup, hinv.free_nodup,
    hinv.not_free⟩

theorem inv_new (hinv : h.Inv capacity) (hlist : h.bm.freeBlocks order = [])
    (hrefused : ¬ h.Refused order) (hfits : h.bm.usedSize + 2 ^ order ≤ capacity) :
    (h.step (.alloc order)).Inv capacity := by
  have hholder : 0 < 2 ^ largeBlockThreshold := Nat.two_pow_pos _
  have hfresh : ¬ h.Known ⟨h.bm.usedSize, order⟩ := by
    intro hknown
    have hbelow := hinv.laid.below _ hknown
    have hsize := Nat.two_pow_pos order
    unfold MemBlock.stop at hbelow
    dsimp only at hbelow
    omega
  have hused : h.bm.usedSize ≠ 0 := by
    have := hinv.holder
    omega
  rw [step_new hused hlist hrefused]
  constructor
  · exact hinv.capacity_eq
  · exact Nat.le_add_right_of_le hinv.holder
  · refine hinv.laid.add hinv.holder hfits fun b => ?_
    unfold Known
    dsimp only
    rw [List.mem_cons]
    tauto
  · exact List.nodup_cons.mpr ⟨fun hmem => hfresh (Or.inl hmem), hinv.nodup⟩
  · exact hinv.free_nodup
  · intro b hb
    rcases List.mem_cons.mp hb with rfl | hb
    · exact fun hmem => hfresh (Or.inr hmem)
    · exact hinv.not_free b hb

theorem inv_free (hinv : h.Inv capacity) (hb : b ∈ h.live) : (h.step (.free b)).Inv capacity := by
  have hlaid := hinv.laid.congr (known_free hb hinv.nodup) (Nat.le_refl _)
  have hnot := hinv.not_free b hb
  constructor
  · exact hinv.capacity_eq
  · exact hinv.holder
  · exact hlaid
  · exact hinv.nodup.erase b
  · intro o
    unfold step BlockManager.free
    dsimp only
    by_cases ho : o = b.order
    · rw [ho, Function.update_self]
      exact List.nodup_cons.mpr ⟨hnot, hinv.free_nodup _⟩
    · rw [Function.update_of_ne ho]
      exact hinv.free_nodup o
  · intro c hc
    unfold step BlockManager.free at hc ⊢
    dsimp only at hc ⊢
    obtain ⟨hne, hc⟩ := hinv.nodup.mem_erase_iff.mp hc
    by_cases ho : c.order = b.order
    · have hnotc := hinv.not_free c hc
      rw [ho] at hnotc ⊢
      rw [Function.update_self, List.mem_cons, not_or]
      refine ⟨fun hp => hne ?_, hnotc⟩
      cases c
      cases b
      simp_all
    · rw [Function.update_of_ne ho]
      exact hinv.not_free c hc

theorem inv_step (hinv : h.Inv capacity) (call : HeapCall) (hok : h.Ok call) :
    (h.step call).Inv capacity := by
  cases call with
  | alloc order =>
    cases hlist : h.bm.freeBlocks order with
    | nil =>
      by_cases hrefused : h.Refused order
      · exact inv_refused hinv hlist hrefused
      · have hfits := (hok hlist).2 hrefused
        rw [hinv.capacity_eq] at hfits
        exact inv_new hinv hlist hrefused hfits
    | cons pointer rest => exact inv_pop hinv hlist
  | free b => exact inv_free hinv hok

end steps

end Heap

def heapAfter (capacity : Nat) (calls : List HeapCall) : Heap := calls.foldl Heap.step (.init capacity)

/-! ### No block at offset 0 -/

namespace Heap

structure Positive (h : Heap) : Prop where
  used : 0 < h.bm.usedSize
  free : ∀ order, ∀ pointer ∈ h.bm.freeBlocks order, pointer ≠ 0
  live : ∀ b ∈ h.live, b.pointer ≠ 0

section positive
variable {h : Heap} {order : Nat}

theorem alloc_of_cons {pointer : Nat} {rest : List Nat} (hpos : pointer ≠ 0)
    (hlist : h.bm.freeBlocks order = pointer :: rest) :
    h.bm.alloc order = (pointer, { h.bm with freeBlocks := Function.update h.bm.freeBlocks order rest }) := by
  unfold BlockManager.alloc BlockManager.pop
  simp only [hlist, if_neg hpos]

theorem alloc_of_refused (hlist : h.bm.freeBlocks order = []) (hrefused : h.Refused order) :
    h.bm.alloc order = (0, { h.bm with usedSize := h.bm.usedSize + 2 ^ order }) := by
  unfold Refused at hrefused
  unfold BlockManager.alloc BlockManager.pop
  simp only [hlist, if_true, gt_iff_lt, if_pos hrefused]

theorem alloc_of_new (hlist : h.bm.freeBlocks order = []) (hrefused : ¬ h.Refused order) :
    h.bm.alloc order = (h.bm.usedSize, { h.bm with usedSize := h.bm.usedSize + 2 ^ order }) := by
  unfold Refused at hrefused
  unfold BlockManager.alloc BlockManager.pop
  simp only [hlist, if_true, gt_iff_lt, if_neg hrefused]

theorem Positive.step (hpos : h.Positive) {call : HeapCall} (hlegal : h.Legal call) : (h.step call).Positive := by
  cases call with
  | free b =>
    refine ⟨hpos.used, fun order pointer hmem => ?_, fun c hc => hpos.live c (List.mem_of_mem_erase hc)⟩
    unfold Heap.step BlockManager.free at hmem
    dsimp only at hmem
    by_cases ho : order = b.order
    · rw [ho, Function.update_self] at hmem
      rcases List.mem_cons.mp hmem with rfl | hmem
      · exact hpos.live b hlegal
      · exact hpos.free _ _ hmem
    · rw [Function.update_of_ne ho] at hmem
      exact hpos.free _ _ hmem
  | alloc order =>
    have hlive : ∀ bm pointer, ∀ b ∈ (if pointer = 0 then h.live else (⟨pointer, order⟩ : MemBlock) :: h.live),
        bm = (h.step (.alloc order)).bm → b.pointer ≠ 0 := by
      intro bm pointer b hb _
      split at hb
      · exact hpos.live b hb
      · rename_i hne
        rcases List.mem_cons.mp hb with rfl | hb
        · exact hne
        · exact hpos.live b hb
    unfold Heap.step
    dsimp only
    refine ⟨?_, ?_, fun b hb => hlive _ _ b hb rfl⟩
    · cases hlist : h.bm.freeBlocks order with
      | nil =>
        by_cases hrefused : h.Refused order
        · rw [alloc_of_refused hlist hrefused]
          exact Nat.add_pos_left hpos.used _
        · rw [alloc_of_new hlist hrefused]
          exact Nat.add_pos_left hpos.used _
      | cons pointer rest =>
        rw [alloc_of_cons (hpos.free order pointer (by rw [hlist]; exact List.mem_cons_self)) hlist]
        exact hpos.used
    · intro o q hq
      cases hlist : h.bm.freeBlocks order with
      | nil =>
        by_cases hrefused : h.Refused order
        · rw [alloc_of_refused hlist hrefused] at hq
          exact hpos.free o q hq
        · rw [alloc_of_new hlist hrefused] at hq
          exact hpos.free o q hq
      | cons pointer rest =>
        rw [alloc_of_cons (hpos.free order pointer (by rw [hlist]; exact List.mem_cons_self)) hlist] at hq
        dsimp only at hq
        by_cases ho : o = order
        · rw [ho, Function.update_self] at hq
          exact hpos.free order q (by rw [hlist]; exact List.mem_cons_of_mem _ hq)
        · rw [Function.update_of_ne ho] at hq
          exact hpos.free o q hq

theorem positive_after {capacity : Nat} {calls : List HeapCall}
    (hcalls : Allowed Heap.step Heap.Legal (.init capacity) calls) : (heapAfter capacity calls).Positive := by
  refine inv_of_allowed Heap.Positive (fun h call hpos hlegal => hpos.step hlegal) ?_ hcalls
  unfold init
  rw [BlockManager.create_eq]
  exact ⟨Nat.two_pow_pos _, fun order pointer hmem => (by cases hmem), fun b hb => (by cases hb)⟩

end positive

end Heap

/-- In a run in which every new block fits into the buffer, a block handed out next overlaps no
block that is live nor the null holder; it lies inside the buffer if and only if it fits as well. -/
theorem alloc_disjoint {capacity : Nat} (hcapacity : capacity < 2 ^ 64) {calls : List HeapCall}
    (hcalls : Allowed Heap.step Heap.Ok (.init capacity) calls) {order : Nat}
    (hpos : ((heapAfter capacity calls).bm.alloc order).1 ≠ 0) :
    let b : MemBlock := ⟨((heapAfter capacity calls).bm.alloc order).1, order⟩
    (∀ c ∈ (heapAfter capacity calls).live, b.Disjoint c) ∧
      (⟨0, largeBlockThreshold⟩ : MemBlock).Disjoint b ∧
      (b.stop ≤ capacity ↔ (heapAfter capacity calls).Fits order) := by
  have hinv : (heapAfter capacity calls).Inv capacity :=
    inv_of_allowed (Heap.Inv capacity) (fun _ call hinv => Heap.inv_step hinv call) (Heap.inv_init capacity)
      hcalls
  generalize heapAfter capacity calls = h at hinv hpos ⊢
  have hholder := hinv.holder
  cases hlist : h.bm.freeBlocks order with
  | nil =>
    by_cases hrefused : h.Refused order
    · unfold Heap.Refused at hrefused
      unfold BlockManager.alloc BlockManager.pop at hpos
      simp only [hlist, if_true, gt_iff_lt, if_pos hrefused, ne_eq, not_true] at hpos
    · have hnew : (h.bm.alloc order).1 = h.bm.usedSize := by
        unfold Heap.Refused at hrefused
        unfold BlockManager.alloc BlockManager.pop
        simp only [hlist, if_true, gt_iff_lt, if_neg hrefused]
      rw [hnew]
      refine ⟨fun c hc => Or.inr (hinv.laid.below c (Or.inl hc)), Or.inl ?_, ?_⟩
      · show 0 + 2 ^ largeBlockThreshold ≤ h.bm.usedSize
        rw [Nat.zero_add]
        exact hholder
      · show h.bm.usedSize + 2 ^ order ≤ capacity ↔ h.Fits order
        rw [← hinv.capacity_eq]
        constructor
        · intro hle _
          exact ⟨by have := hinv.capacity_eq; omega, fun _ => hle⟩
        · intro hfits
          exact (hfits hlist).2 hrefused
  | cons pointer rest =>
    have hmem : pointer ∈ h.bm.freeBlocks order := by
      rw [hlist]
      exact List.mem_cons_self
    have hknown : h.Known ⟨pointer, order⟩ := Or.inr hmem
    have habove := hinv.laid.above _ hknown
    have hpopped : (h.bm.alloc order).1 = pointer := by
      have hsize : 0 < 2 ^ largeBlockThreshold := Nat.two_pow_pos _
      have hne : ¬ pointer = 0 := by
        dsimp only at habove
        omega
      unfold BlockManager.alloc BlockManager.pop
      simp only [hlist, if_neg hne]
    rw [hpopped]
    refine ⟨fun c hc => ?_, Or.inl ?_, ?_⟩
    · refine hinv.laid.disjoint _ c hknown (Or.inl hc) ?_
      rintro rfl
      exact hinv.not_free _ hc hmem
    · show 0 + 2 ^ largeBlockThreshold ≤ pointer
      rw [Nat.zero_add]
      exact habove
    · refine ⟨fun _ hnil => ?_, fun _ => hinv.laid.inside _ hknown⟩
      rw [hlist] at hnil
      cases hnil

/-- A block of 2 MB is freed before one of 1 MB is taken, which ends with the buffer of 4 MB. -/
def freedHalf : List HeapCall := [.alloc 21, .free ⟨2 ^ 20, 21⟩, .alloc 20]

theorem alloc_disjoint_freedHalf :
    let b : MemBlock := ⟨((heapAfter (2 ^ 22) freedHalf).bm.alloc 21).1, 21⟩
    (∀ c ∈ (heapAfter (2 ^ 22) freedHalf).live, b.Disjoint c) ∧
      (⟨0, largeBlockThreshold⟩ : MemBlock).Disjoint b ∧
      (b.stop ≤ 2 ^ 22 ↔ (heapAfter (2 ^ 22) freedHalf).Fits 21) :=
  alloc_disjoint (by decide) (by decide +kernel) (by decide +kernel)

/-- The freed block makes room for a block in the accounts that there is not at the end. -/
theorem alloc_behind_buffer : ¬ ∀ (capacity : Nat) (calls : List HeapCall) (order : Nat),
    Allowed Heap.step Heap.Legal (.init capacity) calls →
      ((heapAfter capacity calls).bm.alloc order).1 ≠ 0 →
      ((heapAfter capacity calls).bm.alloc order).1 + 2 ^ order ≤ capacity := by
  intro h
  have hinside := h (2 ^ 22) freedHalf 19 (by decide +kernel) (by decide +kernel)
  revert hinside
  decide +kernel

end Gart.Seggraph
