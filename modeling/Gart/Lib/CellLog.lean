import Gart.Lib.MarkerLog

/-!
# The cells of a log with delete markers

A cell holds a value, or the position of an older cell that it deletes. The content of a log are the values that no
marker deletes. A value that is appended joins them, a marker for one of them takes it away.
-/

namespace Gart.MarkerLog

inductive Cell (α : Type)
  | data (x : α)
  | marker (t : Nat)
  deriving DecidableEq, Repr

variable {α : Type}

namespace Cell

def mark : Cell α → Option Nat
  | data _ => none
  | marker t => some t

def value : Cell α → Option α
  | data x => some x
  | marker _ => none

end Cell

def cellMarks (cells : List (Cell α)) (p : Nat) : Option Nat := (cells[p]?).bind Cell.mark

def valueAt (cells : List (Cell α)) (p : Nat) : Option α := (cells[p]?).bind Cell.value

def content (cells : List (Cell α)) : List α :=
  (liveDown (cellMarks cells) cells.length cells.length).filterMap (valueAt cells)

section congr
variable {marks marks' : Nat → Option Nat} {n p : Nat}

theorem WellMarked.congr (hw : WellMarked marks n) (h : ∀ j < n, marks' j = marks j) : WellMarked marks' n where
  older j t hj ht := by
    rw [h j hj] at ht
    exact hw.older j t hj ht
  data j t hj ht := by
    rw [h j hj] at ht
    rw [h t (Nat.lt_trans (hw.older j t hj ht) hj)]
    exact hw.data j t hj ht
  once i j t hi hj hit hjt := by
    rw [h i hi] at hit
    rw [h j hj] at hjt
    exact hw.once i j t hi hj hit hjt

theorem live_congr (h : ∀ j < n, marks' j = marks j) (hp : p < n) : Live marks' n p ↔ Live marks n p := by
  unfold Live
  rw [h p hp]
  apply and_congr_right
  intro _
  exact forall₂_congr fun j hj => by rw [h j hj]

theorem liveDown_filter {marks : Nat → Option Nat} {n m k : Nat} {keep : Nat → Prop} [DecidablePred keep]
    (h : ∀ p < k, Live marks' m p ↔ Live marks n p ∧ keep p) :
    liveDown marks' m k = (liveDown marks n k).filter fun p => keep p := by
  unfold liveDown
  rw [List.filter_reverse, List.filter_filter]
  congr 1
  apply List.filter_congr
  intro p hp
  rw [← Bool.decide_and]
  exact decide_eq_decide.mpr ((h p (List.mem_range.mp hp)).trans and_comm)

theorem liveDown_congr {k : Nat} (h : ∀ j < n, marks' j = marks j) (hk : k ≤ n) :
    liveDown marks' n k = liveDown marks n k := by
  unfold liveDown
  congr 1
  apply List.filter_congr
  intro p hp
  exact decide_eq_decide.mpr (live_congr h (Nat.lt_of_lt_of_le (List.mem_range.mp hp) hk))

theorem liveDown_nodup {k : Nat} : (liveDown marks n k).Nodup :=
  List.nodup_reverse.mpr (List.nodup_range.filter _)

theorem mem_liveDown {k : Nat} : p ∈ liveDown marks n k ↔ p < k ∧ Live marks n p := by
  unfold liveDown
  rw [List.mem_reverse, List.mem_filter, List.mem_range, decide_eq_true_iff]

end congr

/-! ### Growing a log -/

section append
variable {cells : List (Cell α)} {x : α} {t p : Nat}

theorem cellMarks_append (cell : Cell α) (h : p < cells.length) :
    cellMarks (cells ++ [cell]) p = cellMarks cells p := by
  unfold cellMarks
  rw [List.getElem?_append_left h]

theorem cellMarks_last (cell : Cell α) : cellMarks (cells ++ [cell]) cells.length = cell.mark := by
  unfold cellMarks
  rw [List.getElem?_concat_length]
  rfl

theorem valueAt_append (cell : Cell α) (h : p < cells.length) : valueAt (cells ++ [cell]) p = valueAt cells p := by
  unfold valueAt
  rw [List.getElem?_append_left h]

theorem valueAt_last (cell : Cell α) : valueAt (cells ++ [cell]) cells.length = cell.value := by
  unfold valueAt
  rw [List.getElem?_concat_length]
  rfl

theorem valueAt_lt (h : valueAt cells p = some x) : p < cells.length := by
  by_contra hnot
  unfold valueAt at h
  rw [List.getElem?_eq_none (Nat.not_lt.mp hnot)] at h
  cases h

theorem cellMarks_of_valueAt (h : valueAt cells p = some x) : cellMarks cells p = none := by
  unfold valueAt at h
  obtain ⟨cell, hcell, hvalue⟩ := Option.bind_eq_some_iff.mp h
  unfold cellMarks
  rw [hcell]
  cases cell with
  | data y => rfl
  | marker t => cases hvalue

theorem wellMarked_nil : WellMarked (cellMarks ([] : List (Cell α))) ([] : List (Cell α)).length where
  older j _ hj := absurd hj (Nat.not_lt_zero j)
  data j _ hj := absurd hj (Nat.not_lt_zero j)
  once i _ _ hi := absurd hi (Nat.not_lt_zero i)

theorem wellMarked_append_data (hw : WellMarked (cellMarks cells) cells.length) :
    WellMarked (cellMarks (cells ++ [Cell.data x])) (cells ++ [Cell.data x]).length := by
  rw [List.length_append, List.length_singleton]
  exact (hw.congr fun j hj => cellMarks_append _ hj).append_data (cellMarks_last _)

theorem wellMarked_append_marker (hw : WellMarked (cellMarks cells) cells.length) (ht : t < cells.length)
    (hlive : Live (cellMarks cells) cells.length t) :
    WellMarked (cellMarks (cells ++ [Cell.marker t])) (cells ++ [Cell.marker t]).length := by
  rw [List.length_append, List.length_singleton]
  exact (hw.congr fun j hj => cellMarks_append _ hj).append_marker (cellMarks_last _) ht
    ((live_congr (fun j hj => cellMarks_append _ hj) ht).mpr hlive)

theorem filterMap_valueAt_append (cell : Cell α) {positions : List Nat} (h : ∀ p ∈ positions, p < cells.length) :
    positions.filterMap (valueAt (cells ++ [cell])) = positions.filterMap (valueAt cells) :=
  List.filterMap_congr fun p hp => valueAt_append cell (h p hp)

theorem live_append_last (hw : WellMarked (cellMarks cells) cells.length) :
    Live (cellMarks (cells ++ [Cell.data x])) (cells.length + 1) cells.length := by
  refine ⟨cellMarks_last _, fun j hj hmark => ?_⟩
  rcases Nat.lt_succ_iff_lt_or_eq.mp hj with hlt | rfl
  · rw [cellMarks_append _ hlt] at hmark
    exact absurd (hw.older j _ hlt hmark) (Nat.not_lt.mpr (Nat.le_of_lt hlt))
  · rw [cellMarks_last] at hmark
    cases hmark

theorem content_append_data (hw : WellMarked (cellMarks cells) cells.length) :
    content (cells ++ [Cell.data x]) = x :: content cells := by
  have hlast := @live_append_last α cells x hw
  have hrest : liveDown (cellMarks (cells ++ [Cell.data x])) (cells.length + 1) cells.length =
      liveDown (cellMarks cells) cells.length cells.length := by
    have h := @liveDown_filter (cellMarks (cells ++ [Cell.data x])) (cellMarks cells) cells.length (cells.length + 1)
      cells.length (fun _ => True) _ fun p hp => by
        rw [live_append_data (cellMarks_last _), live_congr (fun j hj => cellMarks_append _ hj) hp, and_true]
    rw [h]
    simp
  unfold content
  rw [List.length_append, List.length_singleton, liveDown_succ, if_pos hlast, List.filterMap_cons, valueAt_last, hrest]
  show x :: _ = _
  rw [filterMap_valueAt_append _ fun p hp => (mem_liveDown.mp hp).1]

theorem content_append_marker (hlive : Live (cellMarks cells) cells.length t) (hx : valueAt cells t = some x) :
    (content cells).Perm (x :: content (cells ++ [Cell.marker t])) := by
  have ht := valueAt_lt hx
  have hlast : ¬ Live (cellMarks (cells ++ [Cell.marker t])) (cells.length + 1) cells.length := by
    rintro ⟨hnone, -⟩
    rw [cellMarks_last] at hnone
    cases hnone
  have hrest : liveDown (cellMarks (cells ++ [Cell.marker t])) (cells.length + 1) cells.length =
      (liveDown (cellMarks cells) cells.length cells.length).erase t := by
    rw [liveDown_nodup.erase_eq_filter]
    have h := @liveDown_filter (cellMarks (cells ++ [Cell.marker t])) (cellMarks cells) cells.length (cells.length + 1)
      cells.length (fun p => p ≠ t) _ fun p hp => by
        rw [live_append_marker (cellMarks_last _), live_congr (fun j hj => cellMarks_append _ hj) hp]
    rw [h]
    congr 1
    funext p
    rw [bne, decide_not, beq_eq_decide]
  have hperm := List.perm_cons_erase (mem_liveDown.mpr ⟨ht, hlive⟩)
  unfold content
  rw [List.length_append, List.length_singleton, liveDown_succ, if_neg hlast, hrest,
    filterMap_valueAt_append _ fun p hp => (mem_liveDown.mp (List.mem_of_mem_erase hp)).1]
  have hmapped := hperm.filterMap (valueAt cells)
  rw [List.filterMap_cons, hx] at hmapped
  exact hmapped

end append

/-! ### Logs of different values -/

/-- The log holds these values, each once, and its content are those that are not gone. -/
structure HoldsEach (cells : List (Cell α)) (values : List α) (gone : α → Prop) : Prop where
  inserted : cells.filterMap Cell.value = values
  nodup : values.Nodup
  marked : WellMarked (cellMarks cells) cells.length
  contentNodup : (content cells).Nodup
  mem : ∀ x, x ∈ content cells ↔ x ∈ values ∧ ¬ gone x

section holdsEach
variable {cells : List (Cell α)} {values : List α} {gone gone' : α → Prop} {x : α} {p q : Nat}

theorem exists_valueAt_of_mem (h : x ∈ cells.filterMap Cell.value) : ∃ p, valueAt cells p = some x := by
  obtain ⟨cell, hmem, hvalue⟩ := List.mem_filterMap.mp h
  obtain ⟨p, hp⟩ := List.mem_iff_getElem?.mp hmem
  refine ⟨p, ?_⟩
  unfold valueAt
  rw [hp]
  exact hvalue

theorem mem_of_valueAt (h : valueAt cells p = some x) : x ∈ cells.filterMap Cell.value := by
  unfold valueAt at h
  obtain ⟨cell, hcell, hvalue⟩ := Option.bind_eq_some_iff.mp h
  exact List.mem_filterMap.mpr ⟨cell, List.mem_of_getElem? hcell, hvalue⟩

theorem valueAt_inj (h : (cells.filterMap Cell.value).Nodup) (hp : valueAt cells p = some x)
    (hq : valueAt cells q = some x) : p = q := by
  induction cells generalizing p q with
  | nil => cases hp
  | cons cell cells ih =>
    have hrest : (cells.filterMap Cell.value).Nodup := h.sublist ((List.sublist_cons_self _ _).filterMap _)
    have hhead : ∀ {n}, valueAt (cell :: cells) 0 = some x → valueAt cells n = some x → False := by
      intro n hzero hn
      have hcell : cell.value = some x := hzero
      rw [List.filterMap_cons, hcell] at h
      exact (List.nodup_cons.mp h).1 (mem_of_valueAt hn)
    cases p with
    | zero =>
      cases q with
      | zero => rfl
      | succ q => exact (hhead hp hq).elim
    | succ p =>
      cases q with
      | zero => exact (hhead hq hp).elim
      | succ q => rw [ih hrest hp hq]

theorem mem_content : x ∈ content cells ↔ ∃ p, Live (cellMarks cells) cells.length p ∧ valueAt cells p = some x := by
  unfold content
  rw [List.mem_filterMap]
  constructor
  · rintro ⟨p, hp, hx⟩
    exact ⟨p, (mem_liveDown.mp hp).2, hx⟩
  · rintro ⟨p, hlive, hx⟩
    exact ⟨p, mem_liveDown.mpr ⟨valueAt_lt hx, hlive⟩, hx⟩

theorem holdsEach_nil : HoldsEach ([] : List (Cell α)) [] gone :=
  ⟨rfl, List.nodup_nil, wellMarked_nil, List.nodup_nil, fun x => ⟨fun h => (by cases h), fun h => (by cases h.1)⟩⟩

theorem HoldsEach.congr (h : HoldsEach cells values gone) (hgone : ∀ x ∈ values, gone' x ↔ gone x) :
    HoldsEach cells values gone' :=
  { h with mem := fun x => (h.mem x).trans (and_congr_right fun hx => not_congr (hgone x hx).symm) }

theorem HoldsEach.insert (h : HoldsEach cells values gone) (hnew : x ∉ values) (hgone : ¬ gone x) :
    HoldsEach (cells ++ [Cell.data x]) (values ++ [x]) gone := by
  have hcontent := @content_append_data α cells x h.marked
  refine ⟨?_, ?_, wellMarked_append_data h.marked, ?_, fun y => ?_⟩
  · rw [List.filterMap_append, h.inserted]
    rfl
  · exact List.Nodup.append h.nodup (List.nodup_singleton x) (List.disjoint_singleton.mpr hnew)
  · rw [hcontent, List.nodup_cons]
    exact ⟨fun hmem => hnew ((h.mem x).mp hmem).1, h.contentNodup⟩
  · rw [hcontent, List.mem_cons, h.mem, List.mem_append, List.mem_singleton]
    constructor
    · rintro (rfl | ⟨hy, hlive⟩)
      · exact ⟨Or.inr rfl, hgone⟩
      · exact ⟨Or.inl hy, hlive⟩
    · rintro ⟨hy | rfl, hlive⟩
      · exact Or.inr ⟨hy, hlive⟩
      · exact Or.inl rfl

theorem HoldsEach.live (h : HoldsEach cells values gone) (hp : valueAt cells p = some x) (hgone : ¬ gone x) :
    Live (cellMarks cells) cells.length p := by
  have hx : x ∈ values := by
    rw [← h.inserted]
    exact mem_of_valueAt hp
  obtain ⟨q, hlive, hq⟩ := mem_content.mp ((h.mem x).mpr ⟨hx, hgone⟩)
  rw [valueAt_inj (by rw [h.inserted]; exact h.nodup) hp hq]
  exact hlive

theorem HoldsEach.delete (h : HoldsEach cells values gone) (hp : valueAt cells p = some x) (hgone : ¬ gone x) :
    HoldsEach (cells ++ [Cell.marker p]) values fun y => gone y ∨ y = x := by
  have hlive := h.live hp hgone
  have hperm := content_append_marker hlive hp
  have hnodup : (x :: content (cells ++ [Cell.marker p])).Nodup := hperm.nodup_iff.mp h.contentNodup
  refine ⟨?_, h.nodup, wellMarked_append_marker h.marked (valueAt_lt hp) hlive, (List.nodup_cons.mp hnodup).2,
    fun y => ?_⟩
  · rw [List.filterMap_append, h.inserted]
    exact List.append_nil _
  · have hmem := (hperm.mem_iff (a := y)).symm.trans (h.mem y)
    rw [List.mem_cons] at hmem
    constructor
    · intro hy
      refine ⟨(hmem.mp (Or.inr hy)).1, ?_⟩
      rintro (hold | rfl)
      · exact (hmem.mp (Or.inr hy)).2 hold
      · exact (List.nodup_cons.mp hnodup).1 hy
    · rintro ⟨hy, hnot⟩
      rcases hmem.mpr ⟨hy, fun hold => hnot (Or.inl hold)⟩ with rfl | hmem'
      · exact absurd (Or.inr rfl) hnot
      · exact hmem'

end holdsEach

end Gart.MarkerLog
