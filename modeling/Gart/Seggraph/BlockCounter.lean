import Gart.Seggraph.BlockHistory

/-!
# The counter of used memory

`used_size` is a `std::atomic<size_t>` (`block_manager.hpp:165`): the counter and the
used memory are computed modulo `2 ^ 64`. For as long as all requests together are
smaller than that, the manager with such a counter is the one of `BlockManager`.
-/

namespace Gart.Seggraph
open Gart.Steps

namespace BlockManager

/-- `size_t` subtraction -/
def subWord (a b : Nat) : Nat := (a + (2 ^ 64 - b % 2 ^ 64)) % 2 ^ 64

/-- `getUsedMemory` (`block_manager.hpp:77-87`) -/
def getUsedWord (bm : BlockManager) : Nat :=
  (List.range (largeBlockThreshold + 20)).foldl
    (fun ret i => subWord ret ((bm.freeBlocks i).length * 2 ^ i)) bm.usedSize

/-- `alloc` (`block_manager.hpp:90-129`) -/
def allocWord (bm : BlockManager) (order : Nat) : Nat × BlockManager :=
  let popped := bm.pop order
  if popped.1 = 0 then
    let pointer := popped.2.usedSize
    let bm' : BlockManager := { popped.2 with usedSize := (pointer + 2 ^ order) % 2 ^ 64 }
    if bm'.getUsedWord > bm'.capacity then (0, bm') else (pointer, bm')
  else
    popped

def createWord (capacity : Nat) : BlockManager :=
  (allocWord { capacity := capacity, usedSize := 0, freeBlocks := fun _ => [] }
    largeBlockThreshold).2

/-- What `getUsedMemory` takes off. -/
def freeBytes (freeBlocks : Nat → List Nat) (orders : List Nat) : Nat :=
  (orders.map fun i => (freeBlocks i).length * 2 ^ i).sum

section
variable {bm : BlockManager} {f : Nat → List Nat} {orders : List Nat} {order a b : Nat}

theorem subWord_eq (hle : b ≤ a) (hlt : a < 2 ^ 64) : subWord a b = a - b := by
  unfold subWord
  omega

theorem foldl_sub (u : Nat) :
    orders.foldl (fun ret i => ret - (f i).length * 2 ^ i) u = u - freeBytes f orders := by
  induction orders generalizing u with
  | nil => rfl
  | cons i rest ih =>
    rw [List.foldl_cons, ih]
    unfold freeBytes
    rw [List.map_cons, List.sum_cons, Nat.sub_sub]

theorem foldl_subWord {u : Nat} (hle : freeBytes f orders ≤ u) (hlt : u < 2 ^ 64) :
    orders.foldl (fun ret i => subWord ret ((f i).length * 2 ^ i)) u = u - freeBytes f orders := by
  induction orders generalizing u with
  | nil => rfl
  | cons i rest ih =>
    unfold freeBytes at hle ⊢
    rw [List.map_cons, List.sum_cons] at hle ⊢
    rw [List.foldl_cons, subWord_eq (by omega) hlt, ih (by unfold freeBytes; omega) (by omega), Nat.sub_sub]
    rfl

theorem freeBytes_update (rest : List Nat) (hnodup : orders.Nodup) :
    freeBytes (Function.update f order rest) orders +
        (if order ∈ orders then (f order).length * 2 ^ order else 0) =
      freeBytes f orders + (if order ∈ orders then rest.length * 2 ^ order else 0) := by
  induction orders with
  | nil => rfl
  | cons i orders ih =>
    obtain ⟨hnot, hnodup⟩ := List.nodup_cons.mp hnodup
    have hrest := ih hnodup
    unfold freeBytes at hrest ⊢
    simp only [List.map_cons, List.sum_cons, List.mem_cons]
    by_cases hi : order = i
    · subst hi
      rw [if_neg hnot, if_neg hnot] at hrest
      rw [Function.update_self, if_pos (.inl rfl), if_pos (.inl rfl)]
      omega
    · rw [Function.update_of_ne (Ne.symm hi)]
      simp only [hi, false_or]
      omega

/-- The free blocks that the accounts know are a part of the used memory. -/
def Counted (bm : BlockManager) : Prop :=
  freeBytes bm.freeBlocks (List.range (largeBlockThreshold + 20)) ≤ bm.usedSize

theorem getUsedWord_eq (h : bm.Counted) (hlt : bm.usedSize < 2 ^ 64) :
    bm.getUsedWord = bm.getUsedMemory := by
  unfold getUsedWord getUsedMemory
  rw [foldl_subWord h hlt, foldl_sub]

theorem allocWord_eq (h : bm.Counted) (hpos : ∀ pointer ∈ bm.freeBlocks order, pointer ≠ 0)
    (hlt : bm.usedSize + 2 ^ order < 2 ^ 64) : bm.allocWord order = bm.alloc order := by
  unfold allocWord alloc pop
  cases hlist : bm.freeBlocks order with
  | cons pointer rest =>
    have hne : pointer ≠ 0 := hpos pointer (by rw [hlist]; exact List.mem_cons_self)
    simp only [if_neg hne]
  | nil =>
    have hcounted : ({ bm with usedSize := bm.usedSize + 2 ^ order } : BlockManager).Counted :=
      Nat.le_add_right_of_le h
    simp only [if_true]
    rw [Nat.mod_eq_of_lt hlt, getUsedWord_eq hcounted hlt]

theorem createWord_eq (capacity : Nat) : createWord capacity = create capacity := by
  have hlt : 0 + 2 ^ largeBlockThreshold < 2 ^ 64 := by decide
  unfold createWord create
  rw [allocWord_eq (by unfold Counted freeBytes; simp) (by simp) hlt]

end

end BlockManager

/-! ### Histories -/

namespace Heap

def initWord (capacity : Nat) : Heap := ⟨.createWord capacity, []⟩

def stepWord (h : Heap) : HeapCall → Heap
  | .alloc order =>
    let (pointer, bm) := h.bm.allocWord order
    ⟨bm, if pointer = 0 then h.live else ⟨pointer, order⟩ :: h.live⟩
  | .free b => ⟨h.bm.free b.pointer b.order, h.live.erase b⟩

def resultsWord (h : Heap) : List HeapCall → List Nat
  | [] => []
  | .alloc order :: calls => (h.bm.allocWord order).1 :: resultsWord (h.stepWord (.alloc order)) calls
  | .free b :: calls => resultsWord (h.stepWord (.free b)) calls

def requested : List HeapCall → Nat
  | [] => 0
  | .alloc order :: calls => 2 ^ order + requested calls
  | .free _ :: calls => requested calls

/-- The bytes that a live block adds to the accounts when it is freed. -/
def weight (b : MemBlock) : Nat :=
  if b.order ∈ List.range (largeBlockThreshold + 20) then 2 ^ b.order else 0

/-- The used memory has room for the free and the live blocks that the accounts know. -/
structure Accounted (h : Heap) : Prop where
  positive : h.Positive
  room : BlockManager.freeBytes h.bm.freeBlocks (List.range (largeBlockThreshold + 20)) +
    (h.live.map weight).sum ≤ h.bm.usedSize

section steps
variable {h : Heap} {order : Nat} {b : MemBlock} {call : HeapCall} {calls : List HeapCall}

theorem weight_le (b : MemBlock) : weight b ≤ 2 ^ b.order := by
  unfold weight
  split
  · exact Nat.le_refl _
  · exact Nat.zero_le _

theorem room_alloc (hacc : h.Accounted) (order : Nat) :
    BlockManager.freeBytes (h.step (.alloc order)).bm.freeBlocks (List.range (largeBlockThreshold + 20)) +
      ((h.step (.alloc order)).live.map weight).sum ≤ (h.step (.alloc order)).bm.usedSize := by
  have hroom := hacc.room
  cases hlist : h.bm.freeBlocks order with
  | nil =>
    by_cases hrefused : h.Refused order
    · rw [step_refused hlist hrefused]
      exact Nat.le_add_right_of_le hroom
    · rw [step_new (Nat.pos_iff_ne_zero.mp hacc.positive.used) hlist hrefused]
      have hone := weight_le ⟨h.bm.usedSize, order⟩
      dsimp only at hone ⊢
      rw [List.map_cons, List.sum_cons]
      omega
  | cons pointer rest =>
    have hne := hacc.positive.free order pointer (by rw [hlist]; exact List.mem_cons_self)
    have hupdate := @BlockManager.freeBytes_update h.bm.freeBlocks
      (List.range (largeBlockThreshold + 20)) order rest List.nodup_range
    rw [hlist, List.length_cons, Nat.succ_mul] at hupdate
    rw [step_pop hne hlist]
    dsimp only
    rw [List.map_cons, List.sum_cons, weight]
    dsimp only
    split at hupdate
    · rename_i hin
      rw [if_pos hin]
      omega
    · rename_i hout
      rw [if_neg hout]
      omega

theorem room_free (hacc : h.Accounted) (hb : b ∈ h.live) :
    BlockManager.freeBytes (h.step (.free b)).bm.freeBlocks (List.range (largeBlockThreshold + 20)) +
      ((h.step (.free b)).live.map weight).sum ≤ (h.step (.free b)).bm.usedSize := by
  have hroom := hacc.room
  have hupdate := @BlockManager.freeBytes_update h.bm.freeBlocks (List.range (largeBlockThreshold + 20))
    b.order (b.pointer :: h.bm.freeBlocks b.order) List.nodup_range
  have hlive : weight b + ((h.live.erase b).map weight).sum = (h.live.map weight).sum := by
    rw [← List.sum_cons, ← List.map_cons]
    exact (List.Perm.map weight (List.perm_cons_erase hb)).sum_nat.symm
  rw [List.length_cons, Nat.succ_mul] at hupdate
  unfold step BlockManager.free
  dsimp only
  unfold weight at hlive hroom ⊢
  split at hupdate
  · rename_i hin
    rw [if_pos hin] at hlive
    omega
  · rename_i hout
    rw [if_neg hout] at hlive
    omega

theorem Accounted.step (hacc : h.Accounted) (hlegal : h.Legal call) : (h.step call).Accounted := by
  refine ⟨hacc.positive.step hlegal, ?_⟩
  cases call with
  | alloc order => exact room_alloc hacc order
  | free b => exact room_free hacc hlegal

theorem accounted_init (capacity : Nat) : (init capacity).Accounted := by
  refine ⟨@positive_after capacity [] trivial, ?_⟩
  unfold init
  rw [BlockManager.create_eq]
  unfold BlockManager.freeBytes
  simp

theorem usedSize_step (hacc : h.Accounted) (call : HeapCall) :
    (h.step call).bm.usedSize ≤ h.bm.usedSize + requested [call] := by
  cases call with
  | free b => exact Nat.le_add_right _ _
  | alloc order =>
    have hrequested : requested [.alloc order] = 2 ^ order := Nat.add_zero _
    rw [hrequested]
    cases hlist : h.bm.freeBlocks order with
    | nil =>
      by_cases hrefused : h.Refused order
      · rw [step_refused hlist hrefused]
      · rw [step_new (Nat.pos_iff_ne_zero.mp hacc.positive.used) hlist hrefused]
    | cons pointer rest =>
      have hne := hacc.positive.free order pointer (by rw [hlist]; exact List.mem_cons_self)
      rw [step_pop hne hlist]
      exact Nat.le_add_right _ _

theorem requested_cons (call : HeapCall) (calls : List HeapCall) :
    requested (call :: calls) = requested [call] + requested calls := by
  cases call with
  | alloc order => rfl
  | free b => exact (Nat.zero_add _).symm

theorem stepWord_eq (hacc : h.Accounted) (call : HeapCall)
    (hfits : h.bm.usedSize + requested [call] < 2 ^ 64) : h.stepWord call = h.step call := by
  cases call with
  | free b => rfl
  | alloc order =>
    have hcounted : h.bm.Counted := Nat.le_of_add_right_le hacc.room
    have hrequested : requested [.alloc order] = 2 ^ order := Nat.add_zero _
    rw [hrequested] at hfits
    have hsame := BlockManager.allocWord_eq hcounted (hacc.positive.free order) hfits
    unfold stepWord Heap.step
    dsimp only
    rw [hsame]

/-- A history whose requests do not wrap the counter goes through the states of natural numbers. -/
theorem foldl_stepWord (hacc : h.Accounted) (hcalls : Allowed Heap.stepWord Heap.Legal h calls)
    (hfits : h.bm.usedSize + requested calls < 2 ^ 64) :
    calls.foldl stepWord h = calls.foldl Heap.step h ∧ (calls.foldl stepWord h).Accounted ∧
      (calls.foldl stepWord h).bm.usedSize ≤ h.bm.usedSize + requested calls := by
  induction calls generalizing h with
  | nil =>
    rw [List.foldl_nil, List.foldl_nil]
    exact ⟨rfl, hacc, Nat.le_add_right _ _⟩
  | cons call rest ih =>
    rw [requested_cons] at hfits ⊢
    have hmoved := usedSize_step hacc call
    have hfirst : h.bm.usedSize + requested [call] < 2 ^ 64 := by omega
    have hlater : (h.step call).bm.usedSize + requested rest < 2 ^ 64 := by omega
    have hsame := stepWord_eq hacc call hfirst
    have hrest := hcalls.2
    rw [hsame] at hrest
    obtain ⟨hfold, hafter, hused⟩ := ih (hacc.step hcalls.1) hrest hlater
    rw [List.foldl_cons, List.foldl_cons, hsame]
    exact ⟨hfold, hafter, by omega⟩

/-! ### Any history -/

/-- The counter is a word, and no block at offset 0 is free or in use. -/
structure PositiveWord (h : Heap) : Prop where
  used : h.bm.usedSize < 2 ^ 64
  free : ∀ order, ∀ pointer ∈ h.bm.freeBlocks order, pointer ≠ 0
  live : ∀ b ∈ h.live, b.pointer ≠ 0

theorem allocWord_cases (hpos : h.PositiveWord) (order : Nat) :
    (∃ pointer rest, h.bm.freeBlocks order = pointer :: rest ∧ pointer ≠ 0 ∧ h.bm.allocWord order =
      (pointer, { h.bm with freeBlocks := Function.update h.bm.freeBlocks order rest })) ∨
    (h.bm.freeBlocks order = [] ∧
      (h.bm.allocWord order).2 = { h.bm with usedSize := (h.bm.usedSize + 2 ^ order) % 2 ^ 64 }) := by
  unfold BlockManager.allocWord BlockManager.pop
  cases hlist : h.bm.freeBlocks order with
  | cons pointer rest =>
    have hne := hpos.free order pointer (by rw [hlist]; exact List.mem_cons_self)
    exact .inl ⟨pointer, rest, rfl, hne, by simp only [if_neg hne]⟩
  | nil =>
    refine .inr ⟨rfl, ?_⟩
    simp only [if_true]
    split <;> rfl

theorem PositiveWord.step (hpos : h.PositiveWord) (hlegal : h.Legal call) :
    (h.stepWord call).PositiveWord := by
  cases call with
  | free b =>
    refine ⟨hpos.used, fun order pointer hmem => ?_, fun c hc => hpos.live c (List.mem_of_mem_erase hc)⟩
    unfold stepWord BlockManager.free at hmem
    dsimp only at hmem
    by_cases ho : order = b.order
    · rw [ho, Function.update_self] at hmem
      rcases List.mem_cons.mp hmem with rfl | hmem
      · exact hpos.live b hlegal
      · exact hpos.free _ _ hmem
    · rw [Function.update_of_ne ho] at hmem
      exact hpos.free _ _ hmem
  | alloc order =>
    have hlive : ∀ b ∈ (h.stepWord (.alloc order)).live, b.pointer ≠ 0 := by
      intro b hb
      unfold stepWord at hb
      dsimp only at hb
      split at hb
      · exact hpos.live b hb
      · rename_i hne
        rcases List.mem_cons.mp hb with rfl | hb
        · exact hne
        · exact hpos.live b hb
    rcases allocWord_cases hpos order with ⟨pointer, rest, hlist, -, hcall⟩ | ⟨hlist, hcall⟩
    · refine ⟨?_, ?_, hlive⟩
      · show (h.bm.allocWord order).2.usedSize < 2 ^ 64
        rw [hcall]
        exact hpos.used
      · intro o q hq
        change q ∈ (h.bm.allocWord order).2.freeBlocks o at hq
        rw [hcall] at hq
        dsimp only at hq
        by_cases ho : o = order
        · rw [ho, Function.update_self] at hq
          exact hpos.free order q (by rw [hlist]; exact List.mem_cons_of_mem _ hq)
        · rw [Function.update_of_ne ho] at hq
          exact hpos.free o q hq
    · refine ⟨?_, ?_, hlive⟩
      · show (h.bm.allocWord order).2.usedSize < 2 ^ 64
        rw [hcall]
        exact Nat.mod_lt _ (by decide)
      · intro o q hq
        change q ∈ (h.bm.allocWord order).2.freeBlocks o at hq
        rw [hcall] at hq
        exact hpos.free o q hq

end steps

end Heap

/-- The heap after some calls on a new manager whose counter is a word. -/
def heapWordAfter (capacity : Nat) (calls : List HeapCall) : Heap :=
  calls.foldl Heap.stepWord (.initWord capacity)

theorem initWord_eq (capacity : Nat) : Heap.initWord capacity = .init capacity := by
  unfold Heap.initWord Heap.init
  rw [BlockManager.createWord_eq]

theorem positiveWord_after {capacity : Nat} {calls : List HeapCall}
    (hcalls : Allowed Heap.stepWord Heap.Legal (.initWord capacity) calls) :
    (heapWordAfter capacity calls).PositiveWord := by
  refine inv_of_allowed Heap.PositiveWord (fun h call hpos hlegal => hpos.step hlegal) ?_ hcalls
  rw [initWord_eq]
  unfold Heap.init
  rw [BlockManager.create_eq]
  exact ⟨show 2 ^ largeBlockThreshold < 2 ^ 64 by decide, fun order pointer hmem => (by cases hmem),
    fun b hb => (by cases hb)⟩

theorem heapWordAfter_eq {capacity : Nat} {calls : List HeapCall}
    (hcalls : Allowed Heap.stepWord Heap.Legal (.initWord capacity) calls)
    (hfits : 2 ^ largeBlockThreshold + Heap.requested calls < 2 ^ 64) :
    heapWordAfter capacity calls = heapAfter capacity calls ∧
      (heapWordAfter capacity calls).Accounted ∧
      (heapWordAfter capacity calls).bm.usedSize ≤ 2 ^ largeBlockThreshold + Heap.requested calls := by
  have hused : (Heap.init capacity).bm.usedSize = 2 ^ largeBlockThreshold :=
    congrArg BlockManager.usedSize (BlockManager.create_eq capacity)
  rw [initWord_eq] at hcalls
  unfold heapWordAfter heapAfter
  rw [initWord_eq, ← hused]
  rw [← hused] at hfits
  exact Heap.foldl_stepWord (Heap.accounted_init capacity) hcalls hfits

end Gart.Seggraph
