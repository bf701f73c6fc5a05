import Mathlib.Algebra.Ring.Nat
import Mathlib.Data.List.Basic

/-!
# Lists packed in one array

The lists lie one after the other, and a table of offsets has the place where each of them starts and the end of the
last one.
-/

namespace Gart.PackedLists

universe u
variable {α : Type u}

def offsetTable (counts : List Nat) : List Nat := counts.scanl (· + ·) 0

def listAt (values : List α) (offsets : List Nat) (i : Nat) : Option (List α) :=
  match offsets[i]?, offsets[i + 1]? with
  | some start, some stop => some ((values.drop start).take (stop - start))
  | _, _ => none

theorem getElem?_scanl_add (counts : List Nat) (start i : Nat) :
    (counts.scanl (· + ·) start)[i]? = if i ≤ counts.length then some (start + (counts.take i).sum) else none := by
  induction counts generalizing start i with
  | nil => cases i <;> simp
  | cons n counts ih =>
    cases i with
    | zero => simp
    | succ i =>
      rw [List.scanl_cons, List.getElem?_cons_succ, ih]
      simp [Nat.add_assoc]

theorem offsetTable_get (counts : List Nat) (i : Nat) :
    (offsetTable counts)[i]? = if i ≤ counts.length then some (counts.take i).sum else none := by
  unfold offsetTable
  rw [getElem?_scanl_add, Nat.zero_add]

theorem drop_flatten (lists : List (List α)) (i : Nat) :
    lists.flatten.drop ((lists.map List.length).take i).sum = (lists.drop i).flatten := by
  induction lists generalizing i with
  | nil => simp
  | cons xs lists ih =>
    cases i with
    | zero => simp
    | succ i =>
      rw [List.map_cons, List.take_succ_cons, List.sum_cons, List.flatten_cons, List.drop_length_add_append, ih]
      rfl

theorem listAt_flatten (lists : List (List α)) (i : Nat) :
    listAt lists.flatten (offsetTable (lists.map List.length)) i = lists[i]? := by
  unfold listAt
  rw [offsetTable_get, offsetTable_get, List.length_map]
  by_cases hi : i < lists.length
  · have hget : (lists.map List.length)[i]? = some (lists[i]).length := by
      rw [List.getElem?_map, List.getElem?_eq_getElem hi]
      rfl
    have hsum : ((lists.map List.length).take (i + 1)).sum =
        ((lists.map List.length).take i).sum + (lists[i]).length := by
      rw [List.take_add_one, hget, List.sum_append]
      simp
    rw [if_pos (Nat.le_of_lt hi), if_pos (Nat.succ_le_of_lt hi), List.getElem?_eq_getElem hi]
    dsimp only
    rw [hsum, Nat.add_sub_cancel_left, drop_flatten, List.drop_eq_getElem_cons hi, List.flatten_cons]
    simp
  · rw [if_neg (c := i + 1 ≤ lists.length) (by omega), List.getElem?_eq_none (Nat.le_of_not_lt hi)]
    cases (if i ≤ lists.length then some ((lists.map List.length).take i).sum else none) <;> rfl

end Gart.PackedLists
