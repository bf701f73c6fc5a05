/-!
# Runs of a step function

What holds at the start of a run and is kept by every step holds at its end, also
where the steps must be allowed in the state they start from.
-/

namespace Gart.Steps

section run
variable {σ α : Type} {step : σ → α → σ} {Ok : σ → α → Prop} (Inv : σ → Prop)

/-- Every step of the run is allowed in the state it starts from. -/
def Allowed (step : σ → α → σ) (Ok : σ → α → Prop) : σ → List α → Prop
  | _, [] => True
  | s, a :: rest => Ok s a ∧ Allowed step Ok (step s a) rest

instance decidableAllowed [∀ s a, Decidable (Ok s a)] :
    (s : σ) → (actions : List α) → Decidable (Allowed step Ok s actions)
  | _, [] => isTrue trivial
  | s, a :: rest =>
    have : Decidable (Allowed step Ok (step s a) rest) := decidableAllowed (step s a) rest
    inferInstanceAs (Decidable (Ok s a ∧ Allowed step Ok (step s a) rest))

theorem inv_of_allowed (hstep : ∀ s a, Inv s → Ok s a → Inv (step s a)) {s : σ} {actions : List α}
    (h : Inv s) (hok : Allowed step Ok s actions) : Inv (actions.foldl step s) := by
  induction actions generalizing s with
  | nil => exact h
  | cons a rest ih => exact ih (hstep s a h hok.1) hok.2

theorem inv_of_step (hstep : ∀ s a, Inv s → Inv (step s a)) {s : σ} (h : Inv s) (actions : List α) :
    Inv (actions.foldl step s) := by
  induction actions generalizing s with
  | nil => exact h
  | cons a rest ih => exact ih (hstep s a h)

end run

end Gart.Steps
