import Gart.Seggraph.BlockCounter

/-!
# A failed allocation

`alloc` moves `used_size` before it looks at the capacity, and a call that fails does not move it back. Two histories
of the block manager are compared, with and without the failed call.
-/

namespace Gart.Seggraph
open Gart.Steps

namespace Heap

def TakesNoNew (h : Heap) : HeapCall → Prop
  | .alloc order => h.bm.freeBlocks order ≠ [] ∨ h.Refused order
  | .free _ => True

instance (h : Heap) : (call : HeapCall) → Decidable (h.TakesNoNew call)
  | .alloc order => inferInstanceAs (Decidable (h.bm.freeBlocks order ≠ [] ∨ h.Refused order))
  | .free _ => inferInstanceAs (Decidable True)

def ahead (d : Nat) (h : Heap) : Heap := ⟨{ h.bm with usedSize := h.bm.usedSize + d }, h.live⟩

section steps
variable {h : Heap} {order d : Nat}

theorem getUsedMemory_mono {bm : BlockManager} {used : Nat} (hle : bm.usedSize ≤ used) :
    bm.getUsedMemory ≤ { bm with usedSize := used }.getUsedMemory := by
  unfold BlockManager.getUsedMemory
  rw [BlockManager.foldl_sub, BlockManager.foldl_sub]
  exact Nat.sub_le_sub_right hle _

theorem refused_ahead (hrefused : h.Refused order) : (h.ahead d).Refused order :=
  Nat.lt_of_lt_of_le hrefused (@getUsedMemory_mono { h.bm with usedSize := h.bm.usedSize + 2 ^ order } _
    (show h.bm.usedSize + 2 ^ order ≤ h.bm.usedSize + d + 2 ^ order by omega))

theorem alloc_ahead (hpos : h.Positive) (hno : h.TakesNoNew (.alloc order)) :
    ((h.ahead d).bm.alloc order).1 = (h.bm.alloc order).1 ∧
      (h.ahead d).step (.alloc order) = (h.step (.alloc order)).ahead d := by
  cases hlist : h.bm.freeBlocks order with
  | nil =>
    have hrefused := hno.resolve_left fun hne => hne hlist
    have hthis := alloc_of_refused hlist hrefused
    have hother := @alloc_of_refused (h.ahead d) order hlist (refused_ahead hrefused)
    unfold Heap.step
    dsimp only
    rw [hthis, hother]
    refine ⟨rfl, ?_⟩
    unfold ahead
    dsimp only
    rw [Nat.add_right_comm]
  | cons pointer rest =>
    have hne := hpos.free order pointer (by rw [hlist]; exact List.mem_cons_self)
    have hthis := alloc_of_cons hne hlist
    have hother := @alloc_of_cons (h.ahead d) order pointer rest hne hlist
    unfold Heap.step
    dsimp only
    rw [hthis, hother]
    exact ⟨rfl, rfl⟩

theorem alloc_ahead_ne (hpos : h.Positive) (hd : 0 < d) (hnew : ¬ h.TakesNoNew (.alloc order)) :
    ((h.ahead d).bm.alloc order).1 ≠ (h.bm.alloc order).1 := by
  obtain ⟨hlist, hrefused⟩ := not_or.mp hnew
  rw [not_not] at hlist
  have hused := hpos.used
  rw [alloc_of_new hlist hrefused]
  by_cases hother : (h.ahead d).Refused order
  · rw [@alloc_of_refused (h.ahead d) order hlist hother]
    dsimp only
    omega
  · rw [@alloc_of_new (h.ahead d) order hlist hother]
    show h.bm.usedSize + d ≠ h.bm.usedSize
    omega

theorem Accounted.ahead (hacc : h.Accounted) (d : Nat) : (h.ahead d).Accounted :=
  ⟨⟨Nat.add_pos_left hacc.positive.used d, hacc.positive.free, hacc.positive.live⟩,
    Nat.le_add_right_of_le hacc.room⟩

/-- Two histories have the same results exactly if the one that is not ahead takes no new block. -/
theorem resultsWord_ahead_iff (hacc : h.Accounted) (hd : 0 < d) {calls : List HeapCall}
    (hcalls : Allowed Heap.stepWord Heap.Legal h calls)
    (hfits : h.bm.usedSize + d + requested calls < 2 ^ 64) :
    (h.ahead d).resultsWord calls = h.resultsWord calls ↔
      Allowed Heap.stepWord Heap.TakesNoNew h calls := by
  induction calls generalizing h with
  | nil => exact ⟨fun _ => trivial, fun _ => rfl⟩
  | cons call rest ih =>
    rw [requested_cons] at hfits
    have hmoved := usedSize_step hacc call
    have hthis := stepWord_eq hacc call (by omega)
    have hother : (h.ahead d).stepWord call = (h.ahead d).step call := by
      apply stepWord_eq (hacc.ahead d) call
      show h.bm.usedSize + d + requested [call] < 2 ^ 64
      omega
    have hlegal := hcalls.2
    rw [hthis] at hlegal
    have hrest := ih (hacc.step hcalls.1) hlegal (by omega)
    have hallowed : Allowed Heap.stepWord Heap.TakesNoNew h (call :: rest) ↔
        h.TakesNoNew call ∧ Allowed Heap.stepWord Heap.TakesNoNew (h.step call) rest := by
      rw [← hthis]
      exact Iff.rfl
    rw [hallowed]
    cases call with
    | free b =>
      unfold resultsWord
      rw [hthis, hother]
      exact ⟨fun heq => ⟨trivial, hrest.mp heq⟩, fun hall => hrest.mpr hall.2⟩
    | alloc order =>
      have hrequested : requested [.alloc order] = 2 ^ order := Nat.add_zero _
      rw [hrequested] at hfits
      have hword := @BlockManager.allocWord_eq h.bm order (Nat.le_of_add_right_le hacc.room)
        (hacc.positive.free order) (by omega)
      have hwordOther := @BlockManager.allocWord_eq (h.ahead d).bm order
        (Nat.le_of_add_right_le (hacc.ahead d).room) (hacc.positive.free order)
        (show h.bm.usedSize + d + 2 ^ order < 2 ^ 64 by omega)
      unfold resultsWord
      rw [hthis, hother, hword, hwordOther]
      constructor
      · intro heq
        obtain ⟨hhead, htail⟩ := List.cons.inj heq
        have hno : h.TakesNoNew (.alloc order) := by
          by_contra hnew
          exact alloc_ahead_ne hacc.positive hd hnew hhead
        rw [(alloc_ahead hacc.positive hno).2] at htail
        exact ⟨hno, hrest.mp htail⟩
      · rintro ⟨hno, hall⟩
        obtain ⟨hhead, hstep⟩ := alloc_ahead (d := d) hacc.positive hno
        rw [hhead, hstep, hrest.mpr hall]

end steps

end Heap

/-- The accounting and the free lists are the same, and so are the results of every later history. -/
structure Heap.Unchanged (h h' : Heap) : Prop where
  used : h'.bm.usedSize = h.bm.usedSize
  free : h'.bm.freeBlocks = h.bm.freeBlocks
  later : ∀ calls, Allowed Heap.stepWord Heap.Legal h calls → h'.resultsWord calls = h.resultsWord calls

/-- A failed allocation never leaves the manager unchanged. For as long as the requests do not wrap the counter, the
results of a later history are those without the failed call exactly if no allocation of it takes a new block. -/
theorem failedAlloc_changes {capacity order : Nat} {calls : List HeapCall} (horder : order < 64)
    (hcalls : Allowed Heap.stepWord Heap.Legal (.initWord capacity) calls)
    (hfail : ((heapWordAfter capacity calls).bm.allocWord order).1 = 0) :
    ¬ (heapWordAfter capacity calls).Unchanged ((heapWordAfter capacity calls).stepWord (.alloc order)) ∧
      ∀ later, Allowed Heap.stepWord Heap.Legal (heapWordAfter capacity calls) later →
        2 ^ largeBlockThreshold + (Heap.requested calls + (2 ^ order + Heap.requested later)) < 2 ^ 64 →
        (((heapWordAfter capacity calls).stepWord (.alloc order)).resultsWord later =
            (heapWordAfter capacity calls).resultsWord later ↔
          Allowed Heap.stepWord Heap.TakesNoNew (heapWordAfter capacity calls) later) := by
  have hpos := positiveWord_after hcalls
  have hfits := @heapWordAfter_eq capacity calls hcalls
  generalize heapWordAfter capacity calls = h at hpos hfail hfits
  rcases Heap.allocWord_cases hpos order with ⟨pointer, rest, -, hne, hcall⟩ | ⟨hlist, hcall⟩
  · rw [hcall] at hfail
    exact absurd hfail hne
  have hstep : h.stepWord (.alloc order) =
      ⟨{ h.bm with usedSize := (h.bm.usedSize + 2 ^ order) % 2 ^ 64 }, h.live⟩ := by
    unfold Heap.stepWord
    dsimp only
    rw [hcall, if_pos hfail]
  refine ⟨fun hsame => ?_, fun later hlater hless => ?_⟩
  · -- a power of two below 2 ^ 64 moves the counter
    have hlt : 2 ^ order < 2 ^ 64 := Nat.pow_lt_pow_right (by decide) horder
    have hpow := Nat.two_pow_pos order
    have hmoved := hsame.used
    have hused := hpos.used
    rw [hstep] at hmoved
    dsimp only at hmoved
    omega
  · have hpow := Nat.two_pow_pos order
    obtain ⟨-, hacc, hused⟩ := hfits (by omega)
    have hahead : h.stepWord (.alloc order) = h.ahead (2 ^ order) := by
      rw [hstep, Nat.mod_eq_of_lt (by omega)]
      rfl
    rw [hahead]
    exact Heap.resultsWord_ahead_iff hacc (Nat.two_pow_pos _) hlater (by omega)

def oneFree : List HeapCall := [.alloc 6, .alloc 7, .free ⟨2 ^ 20, 6⟩]

/-- A request for 1 GB in a buffer of 2 MB. -/
theorem failedAlloc_changes_large :
    ¬ (heapWordAfter (2 ^ 21) oneFree).Unchanged ((heapWordAfter (2 ^ 21) oneFree).stepWord (.alloc 30)) ∧
      ∀ later, Allowed Heap.stepWord Heap.Legal (heapWordAfter (2 ^ 21) oneFree) later →
        2 ^ largeBlockThreshold + (Heap.requested oneFree + (2 ^ 30 + Heap.requested later)) < 2 ^ 64 →
        (((heapWordAfter (2 ^ 21) oneFree).stepWord (.alloc 30)).resultsWord later =
            (heapWordAfter (2 ^ 21) oneFree).resultsWord later ↔
          Allowed Heap.stepWord Heap.TakesNoNew (heapWordAfter (2 ^ 21) oneFree) later) :=
  failedAlloc_changes (by decide) (by decide +kernel) (by decide +kernel)

/-- The free block is taken all the same; the next one is not. -/
example : ((heapWordAfter (2 ^ 21) oneFree).stepWord (.alloc 30)).resultsWord [.alloc 6, .alloc 6] = [2 ^ 20, 0] ∧
    (heapWordAfter (2 ^ 21) oneFree).resultsWord [.alloc 6, .alloc 6] = [2 ^ 20, 2 ^ 20 + 192] := by
  decide +kernel

/-- The failed request takes the room of a small block. -/
theorem failedAlloc_exhausts : ¬ ∀ (capacity order : Nat) (calls : List HeapCall),
    Allowed Heap.stepWord Heap.Legal (.initWord capacity) calls →
      ((heapWordAfter capacity calls).bm.allocWord order).1 = 0 →
        (heapWordAfter capacity calls).Unchanged ((heapWordAfter capacity calls).stepWord (.alloc order)) := by
  intro h
  have hsame := (h (2 ^ 21) 30 [] trivial (by decide +kernel)).later [.alloc 6] (by decide)
  revert hsame
  decide +kernel

end Gart.Seggraph
