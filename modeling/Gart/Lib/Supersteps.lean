import Mathlib.Algebra.BigOperators.Fin
import Mathlib.Data.Fintype.BigOperators
import Mathlib.Data.List.FinRange

/-!
# Rounds of workers

Workers compute in rounds. What they send in a round arrives in the next one, in any order, and they stop behind a round
in which nobody sends anything or asks for another round.
-/

namespace Gart.Supersteps

structure Outcome (n : Nat) (σ M : Type) where
  state : σ
  sent : List (Fin n × M)
  forceContinue : Bool

section rounds
variable {n : Nat} {σ M : Type} {first : Fin n → Outcome n σ M} {next : Fin n → σ → List M → Outcome n σ M}
  {outs : Fin n → Outcome n σ M} {k : Nat} {i : Fin n} {m : M}

def inboxOf (outs : Fin n → Outcome n σ M) (i : Fin n) : List M :=
  (List.finRange n).flatMap fun j => ((outs j).sent.filter fun m => m.1 = i).map Prod.snd

def Quiet (outs : Fin n → Outcome n σ M) : Prop := ∀ i, (outs i).sent = [] ∧ (outs i).forceContinue = false

instance : Decidable (Quiet outs) :=
  inferInstanceAs (Decidable (∀ i, (outs i).sent = [] ∧ (outs i).forceContinue = false))

/-- The rounds of a program; every message is delivered in the round behind the one that sends it. -/
inductive Run (first : Fin n → Outcome n σ M) (next : Fin n → σ → List M → Outcome n σ M) :
    Nat → (Fin n → Outcome n σ M) → Prop
  | start : Run first next 0 first
  | round {k : Nat} {outs : Fin n → Outcome n σ M} (inbox : Fin n → List M) (before : Run first next k outs)
      (goes : ¬ Quiet outs) (delivered : ∀ i, (inbox i).Perm (inboxOf outs i)) :
      Run first next (k + 1) fun i => next i (outs i).state (inbox i)

theorem mem_inboxOf : m ∈ inboxOf outs i ↔ ∃ j, (i, m) ∈ (outs j).sent := by
  unfold inboxOf
  simp only [List.mem_flatMap, List.mem_finRange, true_and, List.mem_map, List.mem_filter, decide_eq_true_eq]
  constructor
  · rintro ⟨j, ⟨dest, msg⟩, ⟨hmem, rfl⟩, rfl⟩
    exact ⟨j, hmem⟩
  · rintro ⟨j, hmem⟩
    exact ⟨j, (i, m), ⟨hmem, rfl⟩, rfl⟩

theorem sum_inboxOf {α : Type} [AddCommMonoid α] (outs : Fin n → Outcome n σ M) (f : M → α) :
    ∑ i, ((inboxOf outs i).map f).sum = ∑ j, ((outs j).sent.map fun m => f m.2).sum := by
  have hworker : ∀ sent : List (Fin n × M),
      ∑ i, (((sent.filter fun m => m.1 = i).map Prod.snd).map f).sum = (sent.map fun m => f m.2).sum := by
    intro sent
    induction sent with
    | nil => simp
    | cons m sent ih =>
      have hone : ∀ i : Fin n, ((((m :: sent).filter fun m => m.1 = i).map Prod.snd).map f).sum =
          (if m.1 = i then f m.2 else 0) + (((sent.filter fun m => m.1 = i).map Prod.snd).map f).sum := by
        intro i
        by_cases hi : m.1 = i <;> simp [hi]
      simp only [hone, Finset.sum_add_distrib, ih, Finset.sum_ite_eq, Finset.mem_univ, if_true, List.map_cons,
        List.sum_cons]
  have hinbox : ∀ i, ((inboxOf outs i).map f).sum =
      ∑ j, ((((outs j).sent.filter fun m => m.1 = i).map Prod.snd).map f).sum := by
    intro i
    rw [Fin.sum_univ_def]
    unfold inboxOf
    induction List.finRange n with
    | nil => rfl
    | cons j js ih => rw [List.flatMap_cons, List.map_append, List.sum_append, ih, List.map_cons, List.sum_cons]
  simp only [hinbox]
  rw [Finset.sum_comm]
  exact Finset.sum_congr rfl fun j _ => hworker (outs j).sent

/-- What the first round leaves, and every further round keeps, holds behind every round. -/
theorem Run.induct {I : Nat → (Fin n → Outcome n σ M) → Prop} (hrun : Run first next k outs) (hstart : I 0 first)
    (hround : ∀ k outs (inbox : Fin n → List M), Run first next k outs → I k outs → ¬ Quiet outs →
      (∀ i, (inbox i).Perm (inboxOf outs i)) → I (k + 1) fun i => next i (outs i).state (inbox i)) : I k outs := by
  induction hrun with
  | start => exact hstart
  | round inbox before goes delivered ih => exact hround _ _ inbox before ih goes delivered

end rounds

end Gart.Supersteps
