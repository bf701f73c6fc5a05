/-!
# Programs that load from a state that others change

A reader that shares memory with a writer makes one load after the other, and the writer may go on between two of
them. `run` gives every load a state of its own; `eval` makes all of them from one state. `Holds` is what a program
ensures when the states that its loads see follow each other by `R`, and `Within` says that a predicate on states
decides everything that a program loads.
-/

namespace Gart

/-- A program of loads from states of type `σ`. -/
inductive Loads (σ α : Type) : Type 1
  | ret (a : α)
  | load {β : Type} (f : σ → β) (next : β → Loads σ α)

namespace Loads
variable {σ α β : Type}

def bind (p : Loads σ α) (q : α → Loads σ β) : Loads σ β :=
  match p with
  | ret a => q a
  | load f next => load f fun x => (next x).bind q

instance instMonadLoads : Monad (Loads σ) where
  pure := ret
  bind := bind

/-- One load. -/
def get (f : σ → α) : Loads σ α := load f ret

/-- The result when the loads see the states `views` one after the other. -/
def run (views : Nat → σ) : Loads σ α → α
  | ret a => a
  | load f next => (next (f (views 0))).run fun i => views (i + 1)

def eval (s : σ) : Loads σ α → α
  | ret a => a
  | load f next => (next (f s)).eval s

@[simp] theorem eval_pure (s : σ) (a : α) : (pure a : Loads σ α).eval s = a := rfl

@[simp] theorem eval_get (s : σ) (f : σ → α) : (get f).eval s = f s := rfl

@[simp] theorem eval_bind (s : σ) (p : Loads σ α) (q : α → Loads σ β) : (p >>= q).eval s = (q (p.eval s)).eval s := by
  induction p with
  | ret a => rfl
  | load f next ih => exact ih (f s)

@[simp] theorem eval_ite (s : σ) (c : Prop) [Decidable c] (p q : Loads σ α) :
    (if c then p else q).eval s = if c then p.eval s else q.eval s := by
  by_cases h : c
  · rw [if_pos h, if_pos h]
  · rw [if_neg h, if_neg h]

theorem bind_assoc {γ : Type} (p : Loads σ α) (q : α → Loads σ β) (k : β → Loads σ γ) :
    (p >>= q) >>= k = p >>= fun a => q a >>= k := by
  induction p with
  | ret a => rfl
  | load f next ih => exact congrArg (load f) (funext fun x => ih x)

/-! ### What a program ensures

The states `τ` that follow each other may know more than a load sees of them, which is `view`. -/

/-- Whatever states the loads see, as long as they follow the state `s` and each other by `R`, the result and the last
state satisfy `Q`. -/
def Holds {τ : Type} (view : τ → σ) (R : τ → τ → Prop) (Q : α → τ → Prop) (s : τ) : Loads σ α → Prop
  | ret a => Q a s
  | load f next => ∀ t, R s t → Holds view R Q t (next (f (view t)))

section rules
variable {τ : Type} {view : τ → σ} {R : τ → τ → Prop} {Q Q' : α → τ → Prop} {P : β → τ → Prop} {s : τ}
  {p : Loads σ α} {q : α → Loads σ β}

theorem holds_pure {a : α} (h : Q a s) : Holds view R Q s (pure a) := h

theorem holds_get {f : σ → α} (h : ∀ t, R s t → Q (f (view t)) t) : Holds view R Q s (get f) := h

theorem Holds.mono (h : Holds view R Q s p) (hQ : ∀ a t, Q a t → Q' a t) : Holds view R Q' s p := by
  induction p generalizing s with
  | ret a => exact hQ a s h
  | load f next ih => exact fun t hst => ih (f (view t)) (h t hst)

theorem Holds.bind (h : Holds view R Q s p) (hq : ∀ a t, Q a t → Holds view R P t (q a)) :
    Holds view R P s (p >>= q) := by
  induction p generalizing s with
  | ret a => exact hq a s h
  | load f next ih => exact fun t hst => ih (f (view t)) (h t hst)

theorem holds_ite {c : Prop} [Decidable c] {p' : Loads σ α} (hp : c → Holds view R Q s p)
    (hp' : ¬ c → Holds view R Q s p') : Holds view R Q s (if c then p else p') := by
  by_cases h : c
  · rw [if_pos h]
    exact hp h
  · rw [if_neg h]
    exact hp' h

theorem holds_get_bind {f : σ → α} (h : ∀ t, R s t → Holds view R P t (q (f (view t)))) :
    Holds view R P s (get f >>= q) := h

theorem Holds.run_spec (h : Holds view R Q s p) {states : Nat → τ} (hfirst : R s (states 0))
    (hnext : ∀ i, R (states i) (states (i + 1))) : ∃ t, Q (p.run fun i => view (states i)) t := by
  induction p generalizing s states with
  | ret a => exact ⟨s, h⟩
  | load f next ih =>
    exact @ih (f (view (states 0))) (states 0) (h _ hfirst) (fun i => states (i + 1)) (hnext 0) fun i => hnext (i + 1)

end rules

/-! ### Programs whose loads are decided -/

/-- In every state that satisfies `V` the loads of a program have the values that they have in `s`. -/
def Within {τ : Type} (view : τ → σ) (V : τ → Prop) (s : σ) : Loads σ α → Prop
  | ret _ => True
  | load f next => (∀ t, V t → f (view t) = f s) ∧ Within view V s (next (f s))

section within
variable {τ : Type} {view : τ → σ} {V : τ → Prop} {s : σ} {t : τ} {R : τ → τ → Prop} {p : Loads σ α}
  {q : α → Loads σ β}

theorem within_pure (a : α) : Within view V s (pure a : Loads σ α) := trivial

theorem within_get {f : σ → α} (h : ∀ t, V t → f (view t) = f s) : Within view V s (get f) := ⟨h, trivial⟩

theorem within_ite {c : Prop} [Decidable c] {p' : Loads σ α} (hp : c → Within view V s p)
    (hp' : ¬ c → Within view V s p') : Within view V s (if c then p else p') := by
  by_cases h : c
  · rw [if_pos h]
    exact hp h
  · rw [if_neg h]
    exact hp' h

theorem Within.bind (h : Within view V s p) (hq : Within view V s (q (p.eval s))) : Within view V s (p >>= q) := by
  induction p with
  | ret a => exact hq
  | load f next ih => exact ⟨h.1, ih (f s) h.2 hq⟩

theorem within_get_bind {f : σ → α} (h : ∀ t, V t → f (view t) = f s) (hq : Within view V s (q (f s))) :
    Within view V s (get f >>= q) := ⟨h, hq⟩

theorem Within.holds (h : Within view V s p) (hkeep : ∀ t u, R t u → V t → V u) (ht : V t) :
    Holds view R (fun a u => a = p.eval s ∧ V u) t p := by
  induction p generalizing t with
  | ret a => exact ⟨rfl, ht⟩
  | load f next ih =>
    intro u htu
    have hu := hkeep t u htu ht
    rw [h.1 u hu]
    exact ih (f s) h.2 hu

end within

attribute [irreducible] Holds Within

end Loads

end Gart
