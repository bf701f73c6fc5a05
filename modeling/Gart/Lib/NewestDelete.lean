import Gart.Lib.CellLog

/-!
# Deleting the newest value of a key

A list is kept as a log of cells. An operation appends a value, or looks for the newest value of a key and appends a
marker for it, whether another marker is for it already or not. What is expected of the values that remain is a
count for each value. It is met as long as no operation comes upon a value that is deleted already.
-/

namespace Gart.MarkerLog

inductive ListOp (α : Type)
  | add (x : α)
  | del (x : α)
  deriving DecidableEq, Repr

namespace ListOp

def arg {α : Type} : ListOp α → α
  | add x => x
  | del x => x

@[simp] theorem arg_add {α : Type} (x : α) : (add x).arg = x := rfl
@[simp] theorem arg_del {α : Type} (x : α) : (del x).arg = x := rfl

end ListOp

variable {α κ : Type} [DecidableEq κ]

def newestAt (key : α → κ) (k : κ) (cells : List (Cell α)) : Nat → Option Nat
  | 0 => none
  | p + 1 =>
    match valueAt cells p with
    | some x => if key x = k then some p else newestAt key k cells p
    | none => newestAt key k cells p

def ListOp.apply (key : α → κ) (cells : List (Cell α)) : ListOp α → List (Cell α)
  | .add x => cells ++ [.data x]
  | .del x =>
    match newestAt key (key x) cells cells.length with
    | some p => cells ++ [.marker p]
    | none => cells

def cellsAfter (key : α → κ) (ops : List (ListOp α)) : List (Cell α) := ops.foldl (ListOp.apply key) []

/-- The occurrences of a value after an operation: a deletion takes one away if there is one. -/
def countStep [DecidableEq α] (x : α) (n : Nat) : ListOp α → Nat
  | .add y => if y = x then n + 1 else n
  | .del y => if y = x then n - 1 else n

def expectedCount [DecidableEq α] (x : α) (ops : List (ListOp α)) : Nat := ops.foldl (countStep x) 0

def onKey (key : α → κ) (k : κ) (ops : List (ListOp α)) : List (ListOp α) := ops.filter fun op => key op.arg = k

def addedOf (ops : List (ListOp α)) : List α :=
  ops.filterMap fun op =>
    match op with
    | .add x => some x
    | .del _ => none

def NeverAdded (key : α → κ) (ops : List (ListOp α)) (k : κ) : Prop := ∀ y ∈ addedOf ops, key y ≠ k

instance (key : α → κ) (ops : List (ListOp α)) (k : κ) : Decidable (NeverAdded key ops k) :=
  inferInstanceAs (Decidable (∀ y ∈ addedOf ops, key y ≠ k))

def AddedLast (key : α → κ) (ops : List (ListOp α)) (x : α) : Prop := (onKey key (key x) ops).getLast? = some (.add x)

instance [DecidableEq α] (key : α → κ) (ops : List (ListOp α)) (x : α) : Decidable (AddedLast key ops x) :=
  inferInstanceAs (Decidable (_ = _))

/-- The deletion of a value finds nothing, or a value that is not deleted. -/
def Deletable (key : α → κ) (before : List (ListOp α)) (x : α) : Prop :=
  NeverAdded key before (key x) ∨ AddedLast key before x

def DeletesLive (key : α → κ) (ops : List (ListOp α)) : Prop :=
  ∀ before x after, ops = before ++ ListOp.del x :: after → Deletable key before x

/-! ### The newest value -/

section newest
variable {key : α → κ} {k : κ} {cells cells' : List (Cell α)} {x : α} {n p : Nat}

theorem newestAt_congr (h : ∀ p < n, valueAt cells' p = valueAt cells p) :
    newestAt key k cells' n = newestAt key k cells n := by
  induction n with
  | zero => rfl
  | succ n ih =>
    unfold newestAt
    rw [h n (Nat.lt_succ_self n), ih fun p hp => h p (Nat.lt_succ_of_lt hp)]

theorem newestAt_some (h : newestAt key k cells n = some p) : ∃ x, valueAt cells p = some x ∧ key x = k := by
  induction n with
  | zero => cases h
  | succ n ih =>
    unfold newestAt at h
    cases hvalue : valueAt cells n with
    | none =>
      rw [hvalue] at h
      exact ih h
    | some x =>
      rw [hvalue] at h
      dsimp only at h
      by_cases hkey : key x = k
      · rw [if_pos hkey] at h
        rw [← Option.some.inj h]
        exact ⟨x, hvalue, hkey⟩
      · rw [if_neg hkey] at h
        exact ih h

theorem newestAt_none (h : ∀ p x, valueAt cells p = some x → key x ≠ k) : newestAt key k cells n = none := by
  cases hnewest : newestAt key k cells n with
  | none => rfl
  | some p =>
    obtain ⟨x, hvalue, hkey⟩ := newestAt_some hnewest
    exact absurd hkey (h p x hvalue)

theorem newestAt_append (cell : Cell α) : newestAt key k (cells ++ [cell]) (cells ++ [cell]).length =
    match cell.value with
    | some x => if key x = k then some cells.length else newestAt key k cells cells.length
    | none => newestAt key k cells cells.length := by
  have hold : newestAt key k (cells ++ [cell]) cells.length = newestAt key k cells cells.length :=
    newestAt_congr fun p hp => valueAt_append cell hp
  rw [List.length_append, List.length_singleton, newestAt, valueAt_last, hold]

end newest

/-! ### Operations -/

section ops
variable {key : α → κ} {ops : List (ListOp α)} {op : ListOp α} {k : κ}

theorem getLast?_onKey_append : (onKey key k (ops ++ [op])).getLast? =
    if key op.arg = k then some op else (onKey key k ops).getLast? := by
  unfold onKey
  rw [List.filter_append]
  by_cases h : key op.arg = k
  · rw [if_pos h, show ([op].filter fun op => key op.arg = k) = [op] from List.filter_cons_of_pos (decide_eq_true h)]
    exact List.getLast?_concat
  · rw [if_neg h, show ([op].filter fun op => key op.arg = k) = [] from List.filter_cons_of_neg (by simpa using h),
      List.append_nil]

theorem mem_addedOf_append {x : α} : x ∈ addedOf (ops ++ [op]) ↔ x ∈ addedOf ops ∨ op = .add x := by
  unfold addedOf
  rw [List.filterMap_append, List.mem_append]
  refine or_congr_right ?_
  cases op with
  | add y => simp [eq_comm]
  | del y => simp

theorem DeletesLive.of_append {after : List (ListOp α)} (h : DeletesLive key (ops ++ after)) : DeletesLive key ops :=
  fun before x more heq => h before x (more ++ after) (by rw [heq, List.append_assoc, List.cons_append])

theorem cellsAfter_append : cellsAfter key (ops ++ [op]) = op.apply key (cellsAfter key ops) := by
  unfold cellsAfter
  rw [List.foldl_append]
  rfl

theorem length_cellsAfter : (cellsAfter key ops).length ≤ ops.length := by
  induction ops using List.reverseRecOn with
  | nil => exact Nat.le_refl 0
  | append_singleton ops op ih =>
    rw [cellsAfter_append, List.length_append, List.length_singleton]
    have happly : (op.apply key (cellsAfter key ops)).length ≤ (cellsAfter key ops).length + 1 := by
      cases op with
      | add x => exact Nat.le_of_eq List.length_append
      | del x =>
        unfold ListOp.apply
        dsimp only
        split
        · exact Nat.le_of_eq List.length_append
        · exact Nat.le_succ _
    omega

end ops

/-! ### The run -/

structure Replayed [DecidableEq α] (key : α → κ) (ops : List (ListOp α)) (cells : List (Cell α)) : Prop where
  marked : WellMarked (cellMarks cells) cells.length
  added : ∀ p x, valueAt cells p = some x → x ∈ addedOf ops
  latest : ∀ k x, (onKey key k ops).getLast? = some (.add x) →
    ∃ p, newestAt key k cells cells.length = some p ∧ valueAt cells p = some x ∧ Live (cellMarks cells) cells.length p
  count : ∀ x, (content cells).count x = expectedCount x ops

section run
variable [DecidableEq α] {key : α → κ} {ops before : List (ListOp α)} {cells : List (Cell α)} {op : ListOp α} {k : κ}
  {x y : α}

theorem expectedCount_append : expectedCount x (ops ++ [op]) = countStep x (expectedCount x ops) op := by
  unfold expectedCount
  rw [List.foldl_append]
  rfl

theorem replayed_nil : Replayed key ([] : List (ListOp α)) [] where
  marked := wellMarked_nil
  added p x hp := by cases hp
  latest k x hlast := by cases hlast
  count x := rfl

theorem Replayed.add (h : Replayed key ops cells) : Replayed key (ops ++ [.add x]) (cells ++ [.data x]) where
  marked := wellMarked_append_data h.marked
  added p y hp := by
    by_cases hlt : p < cells.length
    · rw [valueAt_append _ hlt] at hp
      exact mem_addedOf_append.mpr (Or.inl (h.added p y hp))
    · have hlen := valueAt_lt hp
      rw [List.length_append, List.length_singleton] at hlen
      have heq : p = cells.length := by omega
      rw [heq, valueAt_last] at hp
      rw [← Option.some.inj hp]
      exact mem_addedOf_append.mpr (Or.inr rfl)
  latest k y hlast := by
    rw [newestAt_append, List.length_append, List.length_singleton]
    dsimp only [Cell.value]
    by_cases hkey : key x = k
    · rw [getLast?_onKey_append, ListOp.arg_add, if_pos hkey] at hlast
      have hxy : x = y := by
        cases Option.some.inj hlast
        rfl
      rw [if_pos hkey, ← hxy]
      exact ⟨cells.length, rfl, valueAt_last _, live_append_last h.marked⟩
    · rw [getLast?_onKey_append, ListOp.arg_add, if_neg hkey] at hlast
      obtain ⟨p, hnewest, hvalue, hlive⟩ := h.latest k y hlast
      have hlt := valueAt_lt hvalue
      rw [if_neg hkey]
      refine ⟨p, hnewest, (valueAt_append _ hlt).trans hvalue, ?_⟩
      rw [live_append_data (cellMarks_last _), live_congr (fun j hj => cellMarks_append _ hj) hlt]
      exact hlive
  count y := by
    rw [content_append_data h.marked, List.count_cons, h.count, expectedCount_append, countStep]
    by_cases hxy : x = y
    · rw [if_pos (beq_iff_eq.mpr hxy), if_pos hxy]
    · rw [if_neg (fun heq => hxy (beq_iff_eq.mp heq)), if_neg hxy]
      rfl

theorem Replayed.absent (h : Replayed key ops cells) (hnever : NeverAdded key ops (key x)) :
    newestAt key (key x) cells cells.length = none :=
  newestAt_none fun p y hp => hnever y (h.added p y hp)

theorem Replayed.skip (h : Replayed key ops cells) (hnever : NeverAdded key ops (key x)) :
    Replayed key (ops ++ [.del x]) cells where
  marked := h.marked
  added p y hp := mem_addedOf_append.mpr (Or.inl (h.added p y hp))
  latest k y hlast := by
    by_cases hkey : key x = k
    · rw [getLast?_onKey_append, ListOp.arg_del, if_pos hkey] at hlast
      cases Option.some.inj hlast
    · rw [getLast?_onKey_append, ListOp.arg_del, if_neg hkey] at hlast
      exact h.latest k y hlast
  count y := by
    rw [expectedCount_append, h.count, countStep]
    by_cases hxy : x = y
    · have hzero : (content cells).count y = 0 := by
        rw [List.count_eq_zero]
        intro hmem
        obtain ⟨p, -, hp⟩ := mem_content.mp hmem
        exact hnever y (h.added p y hp) (congrArg key hxy.symm)
      rw [h.count] at hzero
      rw [if_pos hxy, hzero]
    · rw [if_neg hxy]

theorem Replayed.delete {p : Nat} (h : Replayed key ops cells) (hp : newestAt key (key x) cells cells.length = some p)
    (hvalue : valueAt cells p = some x) (hlive : Live (cellMarks cells) cells.length p) :
    Replayed key (ops ++ [.del x]) (cells ++ [.marker p]) where
  marked := wellMarked_append_marker h.marked (valueAt_lt hvalue) hlive
  added q y hq := by
    by_cases hlt : q < cells.length
    · rw [valueAt_append _ hlt] at hq
      exact mem_addedOf_append.mpr (Or.inl (h.added q y hq))
    · have hlen := valueAt_lt hq
      rw [List.length_append, List.length_singleton] at hlen
      have heq : q = cells.length := by omega
      rw [heq, valueAt_last] at hq
      cases hq
  latest k y hlast := by
    by_cases hkey : key x = k
    · rw [getLast?_onKey_append, ListOp.arg_del, if_pos hkey] at hlast
      cases Option.some.inj hlast
    · rw [getLast?_onKey_append, ListOp.arg_del, if_neg hkey] at hlast
      obtain ⟨q, hnewest, hq, hliveq⟩ := h.latest k y hlast
      have hlt := valueAt_lt hq
      have hne : q ≠ p := by
        rintro rfl
        obtain ⟨z, hz, hkeyz⟩ := newestAt_some hnewest
        rw [hvalue] at hz
        exact hkey ((congrArg key (Option.some.inj hz)).trans hkeyz)
      rw [newestAt_append, List.length_append, List.length_singleton]
      refine ⟨q, hnewest, (valueAt_append _ hlt).trans hq, ?_⟩
      rw [live_append_marker (cellMarks_last _), live_congr (fun j hj => cellMarks_append _ hj) hlt]
      exact ⟨hliveq, hne⟩
  count y := by
    have hperm := (content_append_marker hlive hvalue).count_eq y
    rw [h.count, List.count_cons] at hperm
    rw [expectedCount_append, hperm, countStep]
    by_cases hxy : x = y
    · rw [if_pos (beq_iff_eq.mpr hxy), if_pos hxy]
      rfl
    · rw [if_neg (fun heq => hxy (beq_iff_eq.mp heq)), if_neg hxy]
      rfl

theorem Replayed.apply (h : Replayed key ops cells) (hdel : ∀ x, op = .del x → Deletable key ops x) :
    Replayed key (ops ++ [op]) (op.apply key cells) := by
  cases op with
  | add x => exact h.add
  | del x =>
    unfold ListOp.apply
    dsimp only
    rcases hdel x rfl with hnever | hlast
    · rw [h.absent hnever]
      exact h.skip hnever
    · obtain ⟨p, hnewest, hvalue, hlive⟩ := h.latest (key x) x hlast
      rw [hnewest]
      exact h.delete hnewest hvalue hlive

theorem replayed_cellsAfter (h : DeletesLive key ops) : Replayed key ops (cellsAfter key ops) := by
  induction ops using List.reverseRecOn with
  | nil => exact replayed_nil
  | append_singleton ops op ih =>
    rw [cellsAfter_append]
    refine (ih h.of_append).apply fun x hop => ?_
    exact h ops x [] (by rw [hop])

end run

end Gart.MarkerLog
