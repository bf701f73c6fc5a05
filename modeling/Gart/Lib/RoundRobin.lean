import Mathlib.Data.List.Basic

/-!
# Dealing out a sequence in turn

Items with consecutive numbers go to `n` receivers in turn; `share n i k` is what
receiver `i` gets of the items from number `k` on. Taking one item back from each
receiver in turn returns the sequence.
-/

namespace Gart.RoundRobin

universe u
variable {α : Type u} {n i k : Nat} {x : α} {xs ys : List α}

/-- The items of receiver `i`, where the first item has number `k`. -/
def share (n i : Nat) : Nat → List α → List α
  | _, [] => []
  | k, x :: xs => if k % n = i then x :: share n i (k + 1) xs else share n i (k + 1) xs

@[simp] theorem share_nil : share n i k ([] : List α) = [] := rfl

theorem share_cons_self (h : k % n = i) : share n i k (x :: xs) = x :: share n i (k + 1) xs :=
  if_pos h

theorem share_cons_of_ne (h : k % n ≠ i) : share n i k (x :: xs) = share n i (k + 1) xs :=
  if_neg h

theorem share_append :
    share n i k (xs ++ ys) = share n i k xs ++ share n i (k + xs.length) ys := by
  induction xs generalizing k with
  | nil => rfl
  | cons x rest ih =>
    have hidx : k + 1 + rest.length = k + (x :: rest).length := by
      rw [List.length_cons]
      omega
    by_cases hk : k % n = i
    · rw [List.cons_append, share_cons_self hk, share_cons_self hk, ih, hidx]
      rfl
    · rw [List.cons_append, share_cons_of_ne hk, share_cons_of_ne hk, ih, hidx]

theorem share_turn : share n (k % n) k (x :: xs) = x :: share n (k % n) (k + 1) xs :=
  share_cons_self rfl

theorem mem_of_mem_share (h : x ∈ share n i k xs) : x ∈ xs := by
  induction xs generalizing k with
  | nil => cases h
  | cons y rest ih =>
    unfold share at h
    split at h
    · rcases List.mem_cons.mp h with rfl | hrest
      · exact List.mem_cons_self
      · exact List.mem_cons_of_mem _ (ih hrest)
    · exact List.mem_cons_of_mem _ (ih h)

end Gart.RoundRobin
