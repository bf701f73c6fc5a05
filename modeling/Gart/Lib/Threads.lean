/-!
# Pools of threads

The threads of a protocol are the list of the places that they are at. What holds of the numbers of threads at
places of some kinds is kept by a step if the step keeps it, whatever the other threads do.
-/

namespace Gart.Threads

section pool
variable {α : Type} {p : α → Bool} {pool : List α} {i j : Nat} {a b : α}

theorem countP_move (h : pool[i]? = some a) (b : α) :
    (pool.set i b).countP p + (p a).toNat = pool.countP p + (p b).toNat := by
  obtain ⟨hi, hget⟩ := List.getElem?_eq_some_iff.mp h
  have hset := @List.countP_set _ p pool i b hi
  have hpos : p a = true → 0 < pool.countP p := fun hp =>
    List.countP_pos_iff.mpr ⟨a, List.mem_of_getElem? h, hp⟩
  rw [hset, hget]
  cases ha : p a <;> cases p b <;> simp_all

theorem countP_pos (h : pool[i]? = some a) (hp : p a = true) : 0 < pool.countP p :=
  List.countP_pos_iff.mpr ⟨a, List.mem_of_getElem? h, hp⟩

theorem exists_of_countP_pos (h : 0 < pool.countP p) : ∃ (i : Nat) (a : α), pool[i]? = some a ∧ p a = true := by
  obtain ⟨a, hmem, hp⟩ := List.countP_pos_iff.mp h
  obtain ⟨i, hi⟩ := List.mem_iff_getElem?.mp hmem
  exact ⟨i, a, hi, hp⟩

theorem eq_of_countP_le_one (h : pool.countP p ≤ 1) (hi : pool[i]? = some a) (hj : pool[j]? = some b)
    (ha : p a = true) (hb : p b = true) : i = j := by
  induction pool generalizing i j with
  | nil => cases hi
  | cons c rest ih =>
    rw [List.countP_cons] at h
    cases i with
    | zero =>
      cases j with
      | zero => rfl
      | succ j =>
        rw [List.getElem?_cons_zero] at hi
        rw [List.getElem?_cons_succ] at hj
        rw [Option.some.inj hi, if_pos ha] at h
        have hpos := countP_pos hj hb
        omega
    | succ i =>
      cases j with
      | zero =>
        rw [List.getElem?_cons_succ] at hi
        rw [List.getElem?_cons_zero] at hj
        rw [Option.some.inj hj, if_pos hb] at h
        have hpos := countP_pos hi ha
        omega
      | succ j =>
        rw [List.getElem?_cons_succ] at hi hj
        rw [ih (Nat.le_trans (Nat.le_add_right _ _) h) hi hj]

theorem getElem?_set_other (h : i ≠ j) : (pool.set i b)[j]? = pool[j]? := List.getElem?_set_ne h

theorem getElem?_set_at (h : pool[i]? = some a) (b : α) : (pool.set i b)[i]? = some b := by
  rw [List.getElem?_set_self (List.getElem?_eq_some_iff.mp h).1]

end pool

end Gart.Threads
