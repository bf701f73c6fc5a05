import Mathlib.Data.List.Sort
import Mathlib.Data.List.Range

/-!
# Append-only logs with delete markers

A log only grows. A cell holds data, or is a marker that deletes the data cell
at an older position. A reader goes through the log from the newest cell to the
oldest, keeps the positions of the markers it has met in a priority queue, and
skips a data cell when its position is the largest one queued. Whether that
finds the right cells depends on the markers: it does when every marker points
at an older data cell and no two markers at the same one.
-/

namespace Gart.MarkerLog

/-- Insert into a queue that is kept with its largest element in front. -/
def push (x : Nat) (queue : List Nat) : List Nat :=
  queue.orderedInsert (· ≥ ·) x

theorem mem_push {x y : Nat} {queue : List Nat} : y ∈ push x queue ↔ y = x ∨ y ∈ queue := by
  simp [push, List.mem_orderedInsert]

theorem push_sorted {x : Nat} {queue : List Nat} (hq : queue.Pairwise (· > ·))
    (hx : x ∉ queue) : (push x queue).Pairwise (· > ·) := by
  induction queue with
  | nil => simp [push]
  | cons y rest ih =>
    rw [List.pairwise_cons] at hq
    rw [List.mem_cons, not_or] at hx
    by_cases hge : x ≥ y
    · have hins : push x (y :: rest) = x :: y :: rest := by
        simp only [push, List.orderedInsert_cons, if_pos hge]
      rw [hins, List.pairwise_cons]
      refine ⟨?_, List.pairwise_cons.mpr hq⟩
      intro z hz
      rcases List.mem_cons.mp hz with rfl | hz
      · omega
      · have hlt := hq.1 z hz
        omega
    · have hins : push x (y :: rest) = y :: push x rest := by
        simp only [push, List.orderedInsert_cons, if_neg hge]
      rw [hins, List.pairwise_cons]
      refine ⟨?_, ih hq.2 hx.2⟩
      intro z hz
      rcases mem_push.mp hz with rfl | hz
      · omega
      · exact hq.1 z hz

/-! ### The scan

`marks j = some t` says that position `j` holds a marker for position `t`, and
`marks j = none` that it holds data. -/

/-- The first position from `k` downwards (counted from 1) that is not skipped,
with the queue at that point; `0` at the end of the log. -/
def seek (marks : Nat → Option Nat) : Nat → List Nat → Nat × List Nat
  | 0, queue => (0, queue)
  | k + 1, queue =>
    match marks k with
    | some t => seek marks k (push t queue)
    | none =>
      match queue with
      | [] => (k + 1, [])
      | top :: rest => if top = k then seek marks k rest else (k + 1, top :: rest)

def yields (marks : Nat → Option Nat) : Nat → List Nat → List Nat
  | 0, _ => []
  | k + 1, queue =>
    match marks k with
    | some t => yields marks k (push t queue)
    | none =>
      match queue with
      | [] => k :: yields marks k []
      | top :: rest => if top = k then yields marks k rest else k :: yields marks k (top :: rest)

theorem seek_le (marks : Nat → Option Nat) (k : Nat) (queue : List Nat) :
    (seek marks k queue).1 ≤ k := by
  induction k generalizing queue with
  | zero => simp [seek]
  | succ k ih =>
    simp only [seek]
    split
    · exact Nat.le_succ_of_le (ih _)
    · split
      · exact Nat.le_refl _
      · split
        · exact Nat.le_succ_of_le (ih _)
        · exact Nat.le_refl _

theorem yields_eq_seek (marks : Nat → Option Nat) (k : Nat) (queue : List Nat) :
    yields marks k queue =
      match seek marks k queue with
      | (0, _) => []
      | (p + 1, rest) => p :: yields marks p rest := by
  induction k generalizing queue with
  | zero => simp [yields, seek]
  | succ k ih =>
    simp only [yields, seek]
    split
    · exact ih _
    · split
      · rfl
      · split
        · exact ih _
        · rfl

theorem mem_yields {marks : Nat → Option Nat} {k p : Nat} {queue : List Nat} (h : p ∈ yields marks k queue) :
    p < k ∧ marks p = none := by
  induction k generalizing queue with
  | zero => cases h
  | succ k ih =>
    have hlater : ∀ queue', p ∈ yields marks k queue' → p < k + 1 ∧ marks p = none := fun queue' hp =>
      ⟨Nat.lt_succ_of_lt (ih hp).1, (ih hp).2⟩
    simp only [yields] at h
    split at h
    · exact hlater _ h
    · rename_i hmark
      split at h
      · rcases List.mem_cons.mp h with rfl | h
        · exact ⟨Nat.lt_succ_self p, hmark⟩
        · exact hlater _ h
      · split at h
        · exact hlater _ h
        · rcases List.mem_cons.mp h with rfl | h
          · exact ⟨Nat.lt_succ_self p, hmark⟩
          · exact hlater _ h

theorem yields_congr {marks marks' : Nat → Option Nat} {k : Nat} (h : ∀ j, j < k → marks j = marks' j)
    (queue : List Nat) : yields marks k queue = yields marks' k queue := by
  induction k generalizing queue with
  | zero => rfl
  | succ k ih =>
    have hrest := ih fun j hj => h j (Nat.lt_succ_of_lt hj)
    simp only [yields, h k (Nat.lt_succ_self k), hrest]

/-! ### What a scan finds -/

/-- Markers point at older data cells, and no two at the same one. -/
structure WellMarked (marks : Nat → Option Nat) (n : Nat) : Prop where
  older : ∀ j t, j < n → marks j = some t → t < j
  data : ∀ j t, j < n → marks j = some t → marks t = none
  once : ∀ i j t, i < n → j < n → marks i = some t → marks j = some t → i = j

/-- Position `p` holds data that no marker below `n` deletes. -/
def Live (marks : Nat → Option Nat) (n p : Nat) : Prop :=
  marks p = none ∧ ∀ j, j < n → marks j ≠ some p

instance (marks : Nat → Option Nat) (n p : Nat) : Decidable (Live marks n p) :=
  inferInstanceAs (Decidable (_ ∧ ∀ j, j < n → marks j ≠ some p))

def liveDown (marks : Nat → Option Nat) (n k : Nat) : List Nat :=
  ((List.range k).filter fun p => Live marks n p).reverse

theorem liveDown_succ (marks : Nat → Option Nat) (n k : Nat) :
    liveDown marks n (k + 1) =
      if Live marks n k then k :: liveDown marks n k else liveDown marks n k := by
  simp only [liveDown, List.range_succ, List.filter_append, List.reverse_append]
  by_cases h : Live marks n k
  · simp [h]
  · simp [h]

/-- The queue between two stops: the deleted positions still to come. -/
structure Pending (marks : Nat → Option Nat) (n k : Nat) (queue : List Nat) : Prop where
  sorted : queue.Pairwise (· > ·)
  mem : ∀ t, t ∈ queue ↔ t < k ∧ ∃ j, k ≤ j ∧ j < n ∧ marks j = some t

theorem pending_nil (marks : Nat → Option Nat) (n : Nat) : Pending marks n n [] := by
  refine ⟨List.Pairwise.nil, ?_⟩
  intro t
  simp only [List.not_mem_nil, false_iff, not_and, not_exists]
  intro _ j hj hlt
  omega

theorem Pending.marker {marks : Nat → Option Nat} {n k t : Nat} {queue : List Nat}
    (hw : WellMarked marks n) (hq : Pending marks n (k + 1) queue) (hk : k < n)
    (ht : marks k = some t) : Pending marks n k (push t queue) := by
  have hlt : t < k := hw.older k t hk ht
  have hnew : t ∉ queue := by
    intro hmem
    obtain ⟨-, j, hj1, hj2, hj⟩ := (hq.mem t).mp hmem
    have heq := hw.once j k t hj2 hk hj ht
    omega
  refine ⟨push_sorted hq.sorted hnew, ?_⟩
  intro s
  rw [mem_push, hq.mem]
  constructor
  · rintro (rfl | ⟨hs, j, hj1, hj2, hj⟩)
    · exact ⟨hlt, k, Nat.le_refl k, hk, ht⟩
    · refine ⟨?_, j, by omega, hj2, hj⟩
      -- a marked position holds data, so it is not the marker at `k`
      have hdata := hw.data j s hj2 hj
      have hne : s ≠ k := by
        rintro rfl
        rw [hdata] at ht
        exact absurd ht (by simp)
      omega
  · rintro ⟨hs, j, hj1, hj2, hj⟩
    by_cases hjk : j = k
    · subst hjk
      rw [hj] at ht
      exact Or.inl (Option.some.inj ht)
    · exact Or.inr ⟨by omega, j, by omega, hj2, hj⟩

theorem Pending.live_iff {marks : Nat → Option Nat} {n k : Nat} {queue : List Nat}
    (hw : WellMarked marks n) (hq : Pending marks n (k + 1) queue) (hdata : marks k = none) :
    Live marks n k ↔ k ∉ queue := by
  rw [hq.mem]
  constructor
  · rintro ⟨-, hnone⟩ ⟨-, j, -, hj2, hj⟩
    exact hnone j hj2 hj
  · intro hnot
    refine ⟨hdata, ?_⟩
    intro j hj heq
    have hlt := hw.older j k hj heq
    exact hnot ⟨Nat.lt_succ_self k, j, by omega, hj, heq⟩

theorem Pending.skip {marks : Nat → Option Nat} {n k : Nat} {rest : List Nat}
    (hq : Pending marks n (k + 1) (k :: rest)) (hdata : marks k = none) :
    Pending marks n k rest := by
  have hsort := List.pairwise_cons.mp hq.sorted
  refine ⟨hsort.2, ?_⟩
  intro t
  have hmem := hq.mem t
  rw [List.mem_cons] at hmem
  constructor
  · intro ht
    obtain ⟨-, j, hj1, hj2, hj⟩ := hmem.mp (Or.inr ht)
    exact ⟨hsort.1 t ht, j, by omega, hj2, hj⟩
  · rintro ⟨ht, j, hj1, hj2, hj⟩
    have hjk : j ≠ k := by
      rintro rfl
      rw [hj] at hdata
      exact absurd hdata (by simp)
    rcases hmem.mpr ⟨by omega, j, by omega, hj2, hj⟩ with rfl | h
    · omega
    · exact h

theorem Pending.keep {marks : Nat → Option Nat} {n k : Nat} {queue : List Nat}
    (hq : Pending marks n (k + 1) queue) (hdata : marks k = none) (hnot : k ∉ queue) :
    Pending marks n k queue := by
  refine ⟨hq.sorted, ?_⟩
  intro t
  rw [hq.mem]
  constructor
  · rintro ⟨ht, j, hj1, hj2, hj⟩
    have hne : t ≠ k := by
      rintro rfl
      exact hnot ((hq.mem t).mpr ⟨ht, j, hj1, hj2, hj⟩)
    exact ⟨by omega, j, by omega, hj2, hj⟩
  · rintro ⟨ht, j, hj1, hj2, hj⟩
    have hjk : j ≠ k := by
      rintro rfl
      rw [hj] at hdata
      exact absurd hdata (by simp)
    exact ⟨by omega, j, by omega, hj2, hj⟩

theorem yields_of_pending {marks : Nat → Option Nat} {n k : Nat} {queue : List Nat}
    (hw : WellMarked marks n) (hk : k ≤ n) (hq : Pending marks n k queue) :
    yields marks k queue = liveDown marks n k := by
  induction k generalizing queue with
  | zero => rfl
  | succ k ih =>
    have hkn : k < n := by omega
    rw [liveDown_succ]
    simp only [yields]
    cases hmark : marks k with
    | some t =>
      have hdead : ¬ Live marks n k := by
        rintro ⟨h, -⟩
        rw [hmark] at h
        exact absurd h (by simp)
      rw [if_neg hdead]
      exact ih (by omega) (hq.marker hw hkn hmark)
    | none =>
      have hlive := hq.live_iff hw hmark
      cases queue with
      | nil =>
        rw [if_pos (hlive.mpr (by simp))]
        simp only
        rw [ih (by omega) (hq.keep hmark (by simp))]
      | cons top rest =>
        by_cases htop : top = k
        · subst htop
          rw [if_neg (by rw [hlive]; simp)]
          simp only [if_true]
          exact ih (by omega) (hq.skip hmark)
        · -- everything queued lies below the top, and the top below `k`
          have hnot : k ∉ top :: rest := by
            intro hmem
            rcases List.mem_cons.mp hmem with rfl | hmem
            · exact htop rfl
            · have hlt := (List.pairwise_cons.mp hq.sorted).1 k hmem
              have hle := ((hq.mem top).mp List.mem_cons_self).1
              omega
          rw [if_pos (hlive.mpr hnot)]
          simp only [if_neg htop]
          rw [ih (by omega) (hq.keep hmark hnot)]

theorem yields_eq_liveDown {marks : Nat → Option Nat} {n : Nat} (hw : WellMarked marks n) :
    yields marks n [] = liveDown marks n n :=
  yields_of_pending hw (Nat.le_refl n) (pending_nil marks n)

theorem yields_of_none {marks : Nat → Option Nat} {k : Nat} (h : ∀ j, j < k → marks j = none) :
    yields marks k [] = (List.range k).reverse := by
  induction k with
  | zero => rfl
  | succ k ih =>
    rw [yields, h k (Nat.lt_succ_self k), List.range_succ, List.reverse_append]
    simp [ih fun j hj => h j (by omega)]

/-! ### Growing a log -/

theorem WellMarked.append_data {marks : Nat → Option Nat} {n : Nat} (hw : WellMarked marks n)
    (hnew : marks n = none) : WellMarked marks (n + 1) where
  older j t hj h := by
    have hjn : j ≠ n := by
      rintro rfl
      rw [hnew] at h
      exact absurd h (by simp)
    exact hw.older j t (by omega) h
  data j t hj h := by
    have hjn : j ≠ n := by
      rintro rfl
      rw [hnew] at h
      exact absurd h (by simp)
    exact hw.data j t (by omega) h
  once i j t hi hj h1 h2 := by
    have hin : i ≠ n := by
      rintro rfl
      rw [hnew] at h1
      exact absurd h1 (by simp)
    have hjn : j ≠ n := by
      rintro rfl
      rw [hnew] at h2
      exact absurd h2 (by simp)
    exact hw.once i j t (by omega) (by omega) h1 h2

theorem WellMarked.append_marker {marks : Nat → Option Nat} {n t : Nat}
    (hw : WellMarked marks n) (hnew : marks n = some t) (ht : t < n) (hlive : Live marks n t) :
    WellMarked marks (n + 1) where
  older j s hj h := by
    by_cases hjn : j = n
    · subst hjn
      rw [hnew] at h
      rw [← Option.some.inj h]
      exact ht
    · exact hw.older j s (by omega) h
  data j s hj h := by
    by_cases hjn : j = n
    · subst hjn
      rw [hnew] at h
      rw [← Option.some.inj h]
      exact hlive.1
    · exact hw.data j s (by omega) h
  once i j s hi hj h1 h2 := by
    by_cases hin : i = n
    · by_cases hjn : j = n
      · omega
      · subst hin
        rw [hnew] at h1
        rw [← Option.some.inj h1] at h2
        exact absurd h2 (hlive.2 j (by omega))
    · by_cases hjn : j = n
      · subst hjn
        rw [hnew] at h2
        rw [← Option.some.inj h2] at h1
        exact absurd h1 (hlive.2 i (by omega))
      · exact hw.once i j s (by omega) (by omega) h1 h2

theorem live_append_data {marks : Nat → Option Nat} {n p : Nat} (hnew : marks n = none) :
    Live marks (n + 1) p ↔ Live marks n p := by
  constructor
  · rintro ⟨h1, h2⟩
    exact ⟨h1, fun j hj => h2 j (by omega)⟩
  · rintro ⟨h1, h2⟩
    refine ⟨h1, fun j hj => ?_⟩
    by_cases hjn : j = n
    · subst hjn
      rw [hnew]
      simp
    · exact h2 j (by omega)

theorem live_append_marker {marks : Nat → Option Nat} {n t p : Nat} (hnew : marks n = some t) :
    Live marks (n + 1) p ↔ Live marks n p ∧ p ≠ t := by
  constructor
  · rintro ⟨h1, h2⟩
    refine ⟨⟨h1, fun j hj => h2 j (by omega)⟩, ?_⟩
    rintro rfl
    exact h2 n (Nat.lt_succ_self n) hnew
  · rintro ⟨⟨h1, h2⟩, hne⟩
    refine ⟨h1, fun j hj => ?_⟩
    by_cases hjn : j = n
    · subst hjn
      rw [hnew]
      intro h
      exact hne (Option.some.inj h).symm
    · exact h2 j (by omega)

end Gart.MarkerLog
