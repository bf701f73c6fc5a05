import Mathlib.Data.List.Perm.Basic
import Gart.Lib.Outcome

/-!
# Groups of a list

The groups of a list by a key, one after the other, are the list in another order.
-/

namespace Gart.Grouping

universe u v
variable {α : Type u} {κ : Type v} [DecidableEq κ]

def group (key : α → κ) (xs : List α) (k : κ) : List α := xs.filter fun x => key x = k

theorem mem_group {key : α → κ} {xs : List α} {k : κ} {x : α} : x ∈ group key xs k ↔ x ∈ xs ∧ key x = k := by
  unfold group
  rw [List.mem_filter, decide_eq_true_iff]

theorem flatMap_group_perm_filter {key : α → κ} {xs : List α} {keys : List κ} (h : keys.Nodup) :
    (keys.flatMap (group key xs)).Perm (xs.filter fun x => key x ∈ keys) := by
  induction keys with
  | nil => simp
  | cons k keys ih =>
    obtain ⟨hk, hrest⟩ := List.nodup_cons.mp h
    have hfirst : group key xs k = (xs.filter fun x => key x ∈ k :: keys).filter fun x => key x = k := by
      unfold group
      rw [List.filter_filter]
      apply List.filter_congr
      intro x _
      by_cases hx : key x = k
      · simp [hx]
      · simp [hx]
    have hothers : (xs.filter fun x => key x ∈ keys) =
        (xs.filter fun x => key x ∈ k :: keys).filter fun x => !decide (key x = k) := by
      rw [List.filter_filter]
      apply List.filter_congr
      intro x _
      by_cases hx : key x = k
      · simp [hx, hk]
      · simp [hx]
    rw [List.flatMap_cons]
    refine ((ih hrest).append_left _).trans ?_
    rw [hfirst, hothers]
    exact List.filter_append_perm _ _

theorem flatMap_group_perm {key : α → κ} {xs : List α} {keys : List κ} (h : keys.Nodup)
    (hmem : ∀ x ∈ xs, key x ∈ keys) : (keys.flatMap (group key xs)).Perm xs := by
  have hall : (xs.filter fun x => key x ∈ keys) = xs :=
    List.filter_eq_self.mpr fun x hx => decide_eq_true (hmem x hx)
  rw [← hall]
  conv_lhs => rw [hall]
  exact flatMap_group_perm_filter h

/-! ### Groups that are collected -/

section collect
variable {ε : Type u} {α β κ : Type v} [DecidableEq κ]

theorem collect_perm {f : α → Except ε (List β)} {g : α → List β} {xs : List α}
    (h : ∀ x ∈ xs, ∃ ys, f x = .ok ys ∧ ys.Perm (g x)) :
    ∃ ys, Outcome.collect f xs = .ok ys ∧ ys.Perm (xs.flatMap g) := by
  obtain ⟨parts, hrun, hparts⟩ := Outcome.mapM_of_ok h
  refine ⟨parts.flatten, ?_, ?_⟩
  · unfold Outcome.collect
    rw [hrun]
    rfl
  · clear hrun h
    induction hparts with
    | nil => exact .refl _
    | cons hone _ ih =>
      rw [List.flatten_cons, List.flatMap_cons]
      exact hone.append ih

theorem collect_groups {f : κ → Except ε (List β)} {m : α → β} {xs : List α} {keys : List κ} (key : α → κ)
    (hkeys : keys.Nodup) (hmem : ∀ x ∈ xs, key x ∈ keys)
    (h : ∀ k ∈ keys, ∃ ys, f k = .ok ys ∧ ys.Perm ((group key xs k).map m)) :
    ∃ ys, Outcome.collect f keys = .ok ys ∧ ys.Perm (xs.map m) := by
  obtain ⟨ys, hrun, hys⟩ := collect_perm h
  refine ⟨ys, hrun, hys.trans ?_⟩
  rw [← List.map_flatMap]
  exact (flatMap_group_perm hkeys hmem).map m

end collect

end Gart.Grouping
