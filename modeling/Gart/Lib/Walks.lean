import Mathlib.Order.WellFounded
import Mathlib.Data.Nat.Find

/-!
# Walks and distances

Walks along weighted edges, and labels from which the distances are read off.
-/

namespace Gart.Walks

section walks
variable {V : Type} {edges : V → List (V × Nat)} {s u v : V} {e : V × Nat} {d : Nat}

inductive Walk (edges : V → List (V × Nat)) (s : V) : V → Nat → Prop
  | start : Walk edges s s 0
  | along {u : V} {d : Nat} {e : V × Nat} (before : Walk edges s u d) (edge : e ∈ edges u) : Walk edges s e.1 (d + e.2)

def Reachable (edges : V → List (V × Nat)) (s v : V) : Prop := ∃ d, Walk edges s v d

def IsDistance (edges : V → List (V × Nat)) (s v : V) (d : Nat) : Prop :=
  Walk edges s v d ∧ ∀ d', Walk edges s v d' → d ≤ d'

theorem Reachable.start : Reachable edges s s := ⟨0, .start⟩

theorem Reachable.along (h : Reachable edges s u) (he : e ∈ edges u) : Reachable edges s e.1 := by
  obtain ⟨d, hd⟩ := h
  exact ⟨d + e.2, hd.along he⟩

theorem Reachable.exists_distance (h : Reachable edges s v) : ∃ d, IsDistance edges s v d := by
  classical
  exact ⟨Nat.find h, Nat.find_spec h, fun d' hd' => Nat.find_min' h hd'⟩

section labels
variable {label : V → Nat} {infinity : Nat} {P : V → Prop}

theorem Walk.label_le (h : Walk edges s v d) (hclosed : ∀ u, P u → ∀ e ∈ edges u, P e.1) (hs : P s)
    (hstart : label s = 0) (hbound : ∀ u, P u → label u ≤ infinity)
    (hrelaxed : ∀ u, P u → label u < infinity → ∀ e ∈ edges u, label e.1 ≤ label u + e.2) : P v ∧ label v ≤ d := by
  induction h with
  | start => exact ⟨hs, hstart.le⟩
  | @along u d e before edge ih =>
    obtain ⟨hu, hle⟩ := ih
    have he := hclosed u hu e edge
    refine ⟨he, ?_⟩
    by_cases hfinite : label u < infinity
    · exact (hrelaxed u hu hfinite e edge).trans (Nat.add_le_add_right hle _)
    · have := hbound e.1 he
      omega

theorem labels_distances (hclosed : ∀ u, P u → ∀ e ∈ edges u, P e.1) (hs : P s)
    (hstart : label s = 0) (hbound : ∀ u, P u → label u ≤ infinity)
    (hrelaxed : ∀ u, P u → label u < infinity → ∀ e ∈ edges u, label e.1 ≤ label u + e.2)
    (hsound : ∀ u, P u → label u < infinity → Walk edges s u (label u))
    (hfits : ∀ u d, IsDistance edges s u d → d < infinity) (hv : P v) :
    (∀ d, IsDistance edges s v d → label v = d) ∧ (label v = infinity ↔ ¬ Reachable edges s v) := by
  have hdistance : ∀ d, IsDistance edges s v d → label v = d := by
    intro d hd
    have hle := (hd.1.label_le hclosed hs hstart hbound hrelaxed).2
    have hwalk := hsound v hv (lt_of_le_of_lt hle (hfits v d hd))
    exact le_antisymm hle (hd.2 _ hwalk)
  refine ⟨hdistance, fun hinf hreach => ?_, fun hnone => ?_⟩
  · obtain ⟨d, hd⟩ := hreach.exists_distance
    have := hdistance d hd
    have := hfits v d hd
    omega
  · by_cases hfinite : label v < infinity
    · exact absurd ⟨_, hsound v hv hfinite⟩ hnone
    · exact le_antisymm (hbound v hv) (not_lt.mp hfinite)

end labels

end walks

end Gart.Walks
