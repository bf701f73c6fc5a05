import Mathlib.Data.List.Basic
import Mathlib.Data.List.Nodup
import Mathlib.Logic.Relation
import Mathlib.Order.Bounds.Basic

/-!
# Labels that are lowered in one sweep

A sweep visits the members of a list in order. A visit lowers the label of a member to the smallest label of its
neighbours, so a label goes on to a member behind in the same sweep, and one step only to a member before.
-/

namespace Gart.Sweeps

section lowest
variable {V A : Type} [LinearOrder A] {r r' : V → A} {us : List V} {u : V} {a : A}

def lowest (r : V → A) (us : List V) (a : A) : A := us.foldl (fun a u => if r u < a then r u else a) a

theorem lowest_cons : lowest r (u :: us) a = lowest r us (if r u < a then r u else a) := rfl

theorem lowest_le_start : lowest r us a ≤ a := by
  induction us generalizing a with
  | nil => exact le_refl a
  | cons u us ih =>
    rw [lowest_cons]
    refine ih.trans ?_
    split
    · rename_i hlt
      exact hlt.le
    · exact le_refl a

theorem lowest_le (hu : u ∈ us) : lowest r us a ≤ r u := by
  induction us generalizing a with
  | nil => cases hu
  | cons u' us ih =>
    rw [lowest_cons]
    rcases List.mem_cons.mp hu with rfl | hu
    · refine (@lowest_le_start _ _ _ r us _).trans ?_
      split
      · exact le_refl _
      · rename_i hle
        exact not_lt.mp hle
    · exact ih hu

theorem lowest_attained : lowest r us a = a ∨ ∃ u ∈ us, lowest r us a = r u := by
  induction us generalizing a with
  | nil => exact Or.inl rfl
  | cons u us ih =>
    rw [lowest_cons]
    rcases @ih (if r u < a then r u else a) with hstart | ⟨u', hu', heq⟩
    · rw [hstart]
      split
      · exact Or.inr ⟨u, List.mem_cons_self, rfl⟩
      · exact Or.inl rfl
    · exact Or.inr ⟨u', List.mem_cons_of_mem u hu', heq⟩

theorem lowest_congr (h : ∀ u ∈ us, r u = r' u) : lowest r us a = lowest r' us a := by
  unfold lowest
  refine List.foldl_ext _ _ _ fun b u hu => ?_
  rw [h u hu]

end lowest

section sweeps
variable {V A σ : Type} [LinearOrder A] {preds : V → List V} {us : List V} {u v w : V}

def Before (us : List V) (u v : V) : Prop := ∃ pre post, us = pre ++ v :: post ∧ u ∈ pre

/-- One sweep takes the label of the first vertex to the second one. -/
inductive Carried (preds : V → List V) (us : List V) : V → V → Prop
  | self (v : V) : Carried preds us v v
  | edge {u v : V} (edge : u ∈ preds v) : Carried preds us u v
  | next {w u v : V} (carried : Carried preds us w u) (edge : u ∈ preds v) (order : Before us u v) :
      Carried preds us w v

def Path (preds : V → List V) (us : List V) : V → V → Prop := Relation.ReflTransGen fun u v => v ∈ us ∧ u ∈ preds v

theorem Carried.path (h : Carried preds us w v) (hv : v ∈ us) (hpreds : ∀ v ∈ us, ∀ u ∈ preds v, u ∈ us) :
    Path preds us w v := by
  induction h with
  | self => exact .refl
  | edge edge => exact .single ⟨hv, edge⟩
  | @next u v _ edge _ ih => exact (ih (hpreds v hv u edge)).tail ⟨hv, edge⟩

theorem before_iff {pre post : List V} (hnodup : (pre ++ v :: post).Nodup) :
    Before (pre ++ v :: post) u v ↔ u ∈ pre := by
  constructor
  · rintro ⟨pre', post', heq, hu⟩
    obtain ⟨-, hcons, hdisjoint⟩ := List.nodup_append.mp hnodup
    have hpre : v ∉ pre := fun hmem => hdisjoint v hmem v List.mem_cons_self rfl
    obtain ⟨rfl, -, -⟩ := (List.append_cons_inj_of_notMem hpre (List.nodup_cons.mp hcons).1).mp heq
    exact hu
  · exact fun hu => ⟨pre, post, rfl, hu⟩

section labels
variable {read : σ → V → A} {visit : σ → V → σ}

theorem visit_least {s t : σ} {pre post : List V} (hus : us = pre ++ v :: post) (hnodup : us.Nodup)
    (hpreds : ∀ u ∈ preds v, u ∈ us) (hself : read (visit t v) v = lowest (read t) (preds v) (read t v))
    (hdone : ∀ u ∈ pre, IsLeast {a | ∃ w, Carried preds us w u ∧ read s w = a} (read t u))
    (hrest : ∀ u ∈ v :: post, read t u = read s u) :
    IsLeast {a | ∃ w, Carried preds us w v ∧ read s w = a} (read (visit t v) v) := by
  rw [hself]
  have hbefore : ∀ u, Before us u v ↔ u ∈ pre := by
    intro u
    rw [hus] at hnodup ⊢
    exact before_iff hnodup
  -- neighbours behind the member, and the member itself, have the labels from before the sweep
  have hlater : ∀ u ∈ preds v, u ∉ pre → read t u = read s u := by
    intro u hu hnot
    have hmem := hpreds u hu
    rw [hus, List.mem_append] at hmem
    exact hrest u (hmem.resolve_left hnot)
  constructor
  · rcases @lowest_attained _ _ _ (read t) (preds v) (read t v) with hstart | ⟨u, hu, heq⟩
    · rw [hstart, hrest v List.mem_cons_self]
      exact ⟨v, .self v, rfl⟩
    · rw [heq]
      by_cases hpre : u ∈ pre
      · obtain ⟨w, hw, hread⟩ := (hdone u hpre).1
        exact ⟨w, .next hw hu ((hbefore u).mpr hpre), hread⟩
      · exact ⟨u, .edge hu, (hlater u hu hpre).symm⟩
  · have hedge : ∀ u ∈ preds v, lowest (read t) (preds v) (read t v) ≤ read s u := by
      intro u hu
      refine (lowest_le hu).trans ?_
      by_cases hpre : u ∈ pre
      · exact (hdone u hpre).2 ⟨u, .self u, rfl⟩
      · exact (hlater u hu hpre).le
    rintro a ⟨w, hw, rfl⟩
    cases hw with
    | self => exact lowest_le_start.trans (hrest v List.mem_cons_self).le
    | edge hu => exact hedge w hu
    | @next u _ hw hu order =>
      exact (lowest_le hu).trans ((hdone u ((hbefore u).mp order)).2 ⟨w, hw, rfl⟩)

theorem sweep_least (hnodup : us.Nodup) (hpreds : ∀ v ∈ us, ∀ u ∈ preds v, u ∈ us)
    (hself : ∀ s, ∀ v ∈ us, read (visit s v) v = lowest (read s) (preds v) (read s v))
    (hother : ∀ s, ∀ v ∈ us, ∀ w ∈ us, w ≠ v → read (visit s v) w = read s w) (s : σ) (hv : v ∈ us) :
    IsLeast {a | ∃ w, Carried preds us w v ∧ read s w = a} (read (us.foldl visit s) v) := by
  have hall : ∀ (rest pre : List V) (t : σ), us = pre ++ rest →
      (∀ u ∈ pre, IsLeast {a | ∃ w, Carried preds us w u ∧ read s w = a} (read t u)) →
      (∀ u ∈ rest, read t u = read s u) →
      ∀ u ∈ us, IsLeast {a | ∃ w, Carried preds us w u ∧ read s w = a} (read (rest.foldl visit t) u) := by
    intro rest
    induction rest with
    | nil =>
      intro pre t hus hdone _ u hu
      rw [hus, List.append_nil] at hu
      exact hdone u hu
    | cons v rest ih =>
      intro pre t hus hdone hrest
      have hv : v ∈ us := hus ▸ List.mem_append_right pre List.mem_cons_self
      have hvisited := visit_least hus hnodup (hpreds v hv) (hself t v hv) hdone hrest
      rw [List.foldl_cons]
      have hsplit := hnodup
      rw [hus] at hsplit
      obtain ⟨-, hcons, hdisjoint⟩ := List.nodup_append.mp hsplit
      refine ih (pre ++ [v]) (visit t v) (hus.trans (by simp)) (fun u hu => ?_) fun u hu => ?_
      · rcases List.mem_append.mp hu with hu | hu
        · have hne : u ≠ v := hdisjoint u hu v List.mem_cons_self
          rw [hother t v hv u (hus ▸ List.mem_append_left _ hu) hne]
          exact hdone u hu
        · rw [List.mem_singleton.mp hu]
          exact hvisited
      · have hne : u ≠ v := fun heq => (List.nodup_cons.mp hcons).1 (heq ▸ hu)
        rw [hother t v hv u (hus ▸ List.mem_append_right _ (List.mem_cons_of_mem v hu)) hne]
        exact hrest u (List.mem_cons_of_mem v hu)
  exact hall us [] s rfl (fun u hu => by cases hu) (fun u _ => rfl) v hv

end labels

end sweeps

end Gart.Sweeps
