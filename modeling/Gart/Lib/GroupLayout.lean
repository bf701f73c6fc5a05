import Mathlib.Algebra.Ring.Nat
import Mathlib.Data.List.Basic
import Mathlib.Data.List.Count

/-!
# Items in groups

Items of given sizes go one by one to the end of their groups. An item starts where
the earlier ones of its group end, so no two of a group overlap.
-/

namespace Gart.GroupLayout

abbrev Item := Nat × Nat

def width (items : List Item) (group : Nat) : Nat :=
  ((items.filter fun item => item.1 = group).map Prod.snd).sum

def number (items : List Item) (group : Nat) : Nat := items.countP fun item => item.1 = group

section append
variable {items more : List Item} {item : Item} {group : Nat}

theorem width_append : width (items ++ more) group = width items group + width more group := by
  unfold width
  rw [List.filter_append, List.map_append, List.sum_append]

theorem number_append : number (items ++ more) group = number items group + number more group :=
  List.countP_append

theorem width_singleton : width [item] group = if item.1 = group then item.2 else 0 := by
  unfold width
  by_cases h : item.1 = group
  · simp [h]
  · simp [h]

theorem number_singleton : number [item] group = if item.1 = group then 1 else 0 := by
  unfold number
  rw [List.countP_singleton]
  simp

end append

section within
variable {items : List Item} {i j : Nat} {item item' : Item}

theorem take_succ (h : items[i]? = some item) : items.take (i + 1) = items.take i ++ [item] := by
  rw [List.take_add_one, h]
  rfl

theorem width_take_le (hij : i ≤ j) (group : Nat) :
    width (items.take i) group ≤ width (items.take j) group := by
  have hsplit : items.take j = items.take i ++ (items.take j).drop i := by
    have htake : (items.take j).take i = items.take i := by
      rw [List.take_take, Nat.min_eq_left hij]
    rw [← htake, List.take_append_drop]
  rw [hsplit, width_append]
  exact Nat.le_add_right _ _

theorem number_take_le (hij : i ≤ j) (group : Nat) :
    number (items.take i) group ≤ number (items.take j) group :=
  ((List.take_sublist_take_left hij).countP_le)

theorem end_le_start (hi : items[i]? = some item) (hij : i < j) :
    width (items.take i) item.1 + item.2 ≤ width (items.take j) item.1 := by
  have hle := @width_take_le items (i + 1) j hij item.1
  rw [take_succ hi, width_append, width_singleton, if_pos rfl] at hle
  exact hle

theorem rank_lt (hi : items[i]? = some item) (hij : i < j) :
    number (items.take i) item.1 < number (items.take j) item.1 := by
  have hle := @number_take_le items (i + 1) j hij item.1
  rw [take_succ hi, number_append, number_singleton, if_pos rfl] at hle
  exact hle

theorem end_le_width (hi : items[i]? = some item) :
    width (items.take i) item.1 + item.2 ≤ width items item.1 := by
  have hlt := (List.getElem?_eq_some_iff.mp hi).1
  have hle := end_le_start hi hlt
  rw [List.take_length] at hle
  exact hle

theorem rank_lt_number (hi : items[i]? = some item) :
    number (items.take i) item.1 < number items item.1 := by
  have hlt := (List.getElem?_eq_some_iff.mp hi).1
  have hle := rank_lt hi hlt
  rw [List.take_length] at hle
  exact hle

theorem number_pos_iff {group : Nat} : 0 < number items group ↔ ∃ item ∈ items, item.1 = group := by
  unfold number
  rw [List.countP_pos_iff]
  simp

end within

/-! ### Leaving out the unused groups -/

def Dense (groups : List Nat) : Prop := ∀ g ∈ groups, ∀ h < g, h ∈ groups

instance (groups : List Nat) : Decidable (Dense groups) :=
  inferInstanceAs (Decidable (∀ g ∈ groups, ∀ h < g, h ∈ groups))

theorem Dense.lt_length {groups : List Nat} (h : Dense groups) {g : Nat} (hg : g ∈ groups) :
    g < groups.length := by
  have hsub : List.range (g + 1) ⊆ groups := by
    intro x hx
    rcases Nat.lt_succ_iff_lt_or_eq.mp (List.mem_range.mp hx) with hlt | rfl
    · exact h g hg x hlt
    · exact hg
  have hle := List.Nodup.length_le_of_subset List.nodup_range hsub
  rw [List.length_range] at hle
  exact hle

theorem up_below_count {flags : List Bool} (h : ∀ i, flags[i]? = some true → i < flags.count true)
    {i : Nat} (hi : i < flags.count true) : flags[i]? = some true := by
  have hlate : (flags.drop (flags.count true)).count true = 0 := by
    rw [List.count_eq_zero]
    intro hmem
    obtain ⟨k, hk⟩ := List.mem_iff_getElem?.mp hmem
    rw [List.getElem?_drop] at hk
    have := h _ hk
    omega
  have hall : (flags.take (flags.count true)).count true = (flags.take (flags.count true)).length := by
    have hsum : flags.count true =
        (flags.take (flags.count true)).count true + (flags.drop (flags.count true)).count true := by
      rw [← List.count_append, List.take_append_drop]
    have hle : (flags.take (flags.count true)).count true ≤ (flags.take (flags.count true)).length :=
      List.count_le_length
    have hlength : (flags.take (flags.count true)).length ≤ flags.count true := by
      rw [List.length_take]
      exact Nat.min_le_left _ _
    omega
  have hup := List.count_eq_length.mp hall
  have hlt : i < flags.length := Nat.lt_of_lt_of_le hi List.count_le_length
  have hmem : flags[i] ∈ flags.take (flags.count true) := by
    rw [List.mem_take_iff_getElem]
    exact ⟨i, by omega, rfl⟩
  rw [List.getElem?_eq_getElem hlt, ← hup _ hmem]

theorem filter_of_marked_first {α : Type} {p : α → Bool} {xs : List α}
    (h : ∀ (i j : Nat) (x y : α), i < j → xs[i]? = some x → xs[j]? = some y → p y = true → p x = true) {i : Nat} {x : α}
    (hi : xs[i]? = some x) (hx : p x = true) : (xs.filter p)[i]? = some x := by
  have hall : ∀ y ∈ xs.take (i + 1), p y = true := by
    intro y hy
    obtain ⟨k, hk, rfl⟩ := List.mem_take_iff_getElem.mp hy
    rcases Nat.lt_or_ge k i with hlt | hge
    · exact h k i _ x hlt (List.getElem?_eq_getElem _) hi hx
    · have hsame : k = i := by omega
      subst hsame
      rw [List.getElem?_eq_getElem (by omega)] at hi
      rw [Option.some.inj hi]
      exact hx
  have hlt := (List.getElem?_eq_some_iff.mp hi).1
  have hsplit : xs.filter p = xs.take (i + 1) ++ (xs.drop (i + 1)).filter p := by
    conv_lhs => rw [← List.take_append_drop (i + 1) xs]
    rw [List.filter_append, List.filter_eq_self.mpr hall]
  rw [hsplit, List.getElem?_append_left (by rw [List.length_take]; omega), List.getElem?_take,
    if_pos (Nat.lt_succ_self i)]
  exact hi

end Gart.GroupLayout
