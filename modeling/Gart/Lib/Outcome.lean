import Mathlib.Data.List.Basic
import Mathlib.Data.List.Forall2

/-!
# Outcomes of fallible code

Code that can stop early returns an `Except`. `Ensures x Q E` says that the
result of `x` satisfies `Q` when it succeeds and that the reason satisfies `E`
when it stops. The rules below follow the control flow: sequencing, a counted
loop, and a run over a list of events.
-/

namespace Gart.Outcome

universe u v
variable {ε : Type u} {α β σ : Type v}

/-- Postcondition `Q` on success, `E` on an early stop. -/
def Ensures (x : Except ε α) (Q : α → Prop) (E : ε → Prop) : Prop :=
  match x with
  | .ok a => Q a
  | .error e => E e

abbrev Never : ε → Prop := fun _ => False

@[simp] theorem ensures_ok {a : α} {Q : α → Prop} {E : ε → Prop} :
    Ensures (.ok a) Q E ↔ Q a := Iff.rfl

@[simp] theorem ensures_pure {a : α} {Q : α → Prop} {E : ε → Prop} :
    Ensures (pure a : Except ε α) Q E ↔ Q a := Iff.rfl

@[simp] theorem ensures_error {e : ε} {Q : α → Prop} {E : ε → Prop} :
    Ensures (.error e : Except ε α) Q E ↔ E e := Iff.rfl

theorem Ensures.bind {x : Except ε α} {f : α → Except ε β} {Q : α → Prop} {R : β → Prop}
    {E : ε → Prop} (hx : Ensures x Q E) (hf : ∀ a, Q a → Ensures (f a) R E) :
    Ensures (x >>= f) R E := by
  cases x with
  | ok a => exact hf a hx
  | error e => exact hx

theorem Ensures.mono {x : Except ε α} {Q R : α → Prop} {E F : ε → Prop}
    (hx : Ensures x Q E) (hQ : ∀ a, Q a → R a) (hE : ∀ e, E e → F e) : Ensures x R F := by
  cases x with
  | ok a => exact hQ a hx
  | error e => exact hE e hx

theorem Ensures.imp {x : Except ε α} {Q R : α → Prop} {E : ε → Prop}
    (hx : Ensures x Q E) (hQ : ∀ a, Q a → R a) : Ensures x R E :=
  hx.mono hQ fun _ h => h

theorem Ensures.of_ok {x : Except ε α} {Q : α → Prop} {E : ε → Prop} {a : α}
    (hx : Ensures x Q E) (h : x = .ok a) : Q a := by
  subst h
  exact hx

theorem Ensures.and_of_ok {x : Except ε α} {Q R : α → Prop} {E : ε → Prop} (hx : Ensures x Q E)
    (hR : ∀ a, x = .ok a → R a) : Ensures x (fun a => Q a ∧ R a) E := by
  cases x with
  | ok a => exact ⟨hx, hR a rfl⟩
  | error e => exact hx

theorem Ensures.of_error {x : Except ε α} {Q : α → Prop} {E : ε → Prop} {e : ε}
    (hx : Ensures x Q E) (h : x = .error e) : E e := by
  subst h
  exact hx

theorem Ensures.exists_ok {x : Except ε α} {Q : α → Prop} (hx : Ensures x Q Never) :
    ∃ a, x = .ok a ∧ Q a := by
  cases x with
  | ok a => exact ⟨a, rfl, hx⟩
  | error e => exact hx.elim

theorem Ensures.mapError {ε' : Type u} {g : ε → ε'} {x : Except ε α} {Q : α → Prop}
    {E : ε' → Prop} (hx : Ensures x Q fun e => E (g e)) : Ensures (x.mapError g) Q E := by
  cases x with
  | ok a => exact hx
  | error e => exact hx

theorem bind_eq_ok {x : Except ε α} {f : α → Except ε β} {b : β} (h : (x >>= f) = .ok b) :
    ∃ a, x = .ok a ∧ f a = .ok b := by
  cases x with
  | ok a => exact ⟨a, rfl, h⟩
  | error e => cases h

instance decidableForallOk {x : Except ε α} {P : α → Prop} [∀ a, Decidable (P a)] : Decidable (∀ a, x = .ok a → P a) :=
  match x with
  | .ok a => decidable_of_iff (P a) ⟨fun h _ heq => Except.ok.inj heq ▸ h, fun h => h a rfl⟩
  | .error _ => isTrue fun _ h => by cases h

theorem ok_of_toOption {x : Except ε α} {a : α} (h : x.toOption = some a) : x = .ok a := by
  cases x with
  | error e => cases h
  | ok b => rw [Option.some.inj h]

theorem exists_ok_of_map {x : Except ε α} {f : α → β} {b : β} (h : x.toOption.map f = some b) :
    ∃ a, x = .ok a ∧ f a = b := by
  cases x with
  | error e => cases h
  | ok a => exact ⟨a, rfl, Option.some.inj h⟩

theorem mapM_of_ok {f : α → Except ε β} {R : α → β → Prop} {xs : List α}
    (h : ∀ x ∈ xs, ∃ y, f x = .ok y ∧ R x y) : ∃ ys, xs.mapM f = .ok ys ∧ List.Forall₂ R xs ys := by
  induction xs with
  | nil => exact ⟨[], rfl, .nil⟩
  | cons x rest ih =>
    obtain ⟨y, hy, hR⟩ := h x List.mem_cons_self
    obtain ⟨ys, hys, hRs⟩ := ih fun z hz => h z (List.mem_cons_of_mem _ hz)
    refine ⟨y :: ys, ?_, .cons hR hRs⟩
    rw [List.mapM_cons, hy, hys]
    rfl

theorem mapM_eq_map {f : α → Except ε β} {g : α → β} {xs : List α} (h : ∀ x ∈ xs, f x = .ok (g x)) :
    xs.mapM f = .ok (xs.map g) := by
  induction xs with
  | nil => rfl
  | cons x rest ih =>
    rw [List.mapM_cons, h x List.mem_cons_self, ih fun z hz => h z (List.mem_cons_of_mem _ hz)]
    rfl

theorem mapM_range_of_ok {γ : Type} {f : Nat → Except ε γ} {R : Nat → γ → Prop} {n : Nat}
    (h : ∀ i < n, ∃ y, f i = .ok y ∧ R i y) :
    ∃ ys, (List.range n).mapM f = .ok ys ∧ ∀ i < n, ∃ y, ys[i]? = some y ∧ R i y := by
  obtain ⟨ys, hys, hall⟩ := mapM_of_ok fun i hi => h i (List.mem_range.mp hi)
  refine ⟨ys, hys, fun i hi => ?_⟩
  have hlen := hall.length_eq
  rw [List.length_range] at hlen
  have hget := hall.get (i := i) (by simpa using hi) (by omega)
  exact ⟨ys[i], List.getElem?_eq_getElem _, by simpa using hget⟩

theorem forall₂_of_mapM {f : α → Except ε β} {xs : List α} {ys : List β} (h : xs.mapM f = .ok ys) :
    List.Forall₂ (fun x y => f x = .ok y) xs ys := by
  induction xs generalizing ys with
  | nil =>
    cases h
    exact .nil
  | cons x xs ih =>
    rw [List.mapM_cons] at h
    obtain ⟨y, hy, h⟩ := bind_eq_ok h
    obtain ⟨rest, hrest, h⟩ := bind_eq_ok h
    cases h
    exact .cons hy (ih hrest)

theorem ok_of_mem_of_mapM {f : α → Except ε β} {xs : List α} {ys : List β} {x : α} (h : xs.mapM f = .ok ys)
    (hx : x ∈ xs) : ∃ y, f x = .ok y := by
  have hall := forall₂_of_mapM h
  obtain ⟨i, hi, rfl⟩ := List.getElem_of_mem hx
  exact ⟨_, hall.get hi (hall.length_eq ▸ hi)⟩

/-- The results of a computation for each element, one after the other. -/
def collect (f : α → Except ε (List β)) (xs : List α) : Except ε (List β) := do
  let parts ← xs.mapM f
  return parts.flatten

/-! ### Counted loops -/

/-- `for (k = i; k < i + n; k++) s = body(k, s)`, left at the first early stop. -/
def forRange (body : Nat → σ → Except ε σ) : Nat → Nat → σ → Except ε σ
  | _, 0, s => .ok s
  | i, n + 1, s => do
    let s' ← body i s
    forRange body (i + 1) n s'

theorem forRange_invariant {f : Nat → σ → Except ε σ} {I : Nat → σ → Prop} {E : ε → Prop}
    {i n : Nat} {s : σ} (h0 : I i s)
    (hstep : ∀ k s, i ≤ k → k < i + n → I k s → Ensures (f k s) (I (k + 1)) E) :
    Ensures (forRange f i n s) (I (i + n)) E := by
  induction n generalizing i s with
  | zero => exact h0
  | succ n ih =>
    simp only [forRange]
    refine Ensures.bind (hstep i s (Nat.le_refl i) (by omega) h0) ?_
    intro s' hs'
    have hrest := ih hs' fun k t hk1 hk2 ht => hstep k t (by omega) (by omega) ht
    have hidx : i + 1 + n = i + (n + 1) := by omega
    rw [hidx] at hrest
    exact hrest

/-! ### Runs over a list of events -/

theorem foldlM_invariant {ev : Type v} {step : σ → ev → Except ε σ} {I : List ev → σ → Prop}
    {E : ε → Prop} {past evs : List ev} {s : σ} (h0 : I past s)
    (hstep : ∀ before x after s, before ++ x :: after = past ++ evs → I before s →
      Ensures (step s x) (I (before ++ [x])) E) :
    Ensures (evs.foldlM step s) (I (past ++ evs)) E := by
  induction evs generalizing past s with
  | nil =>
    simp only [List.foldlM_nil, List.append_nil, ensures_pure]
    exact h0
  | cons x rest ih =>
    simp only [List.foldlM_cons]
    refine Ensures.bind (hstep past x rest s rfl h0) ?_
    intro s' hs'
    have happ : past ++ x :: rest = past ++ [x] ++ rest := by simp
    rw [happ]
    apply ih hs'
    intro before y after t hsplit
    exact hstep before y after t (by rw [hsplit, happ])

/-- A loop whose steps leave the state alone where `P` holds, and fail where it does not. -/
theorem foldlM_same {ev : Type v} {step : σ → ev → Except ε σ} {P : ev → Prop} {e : ε} {evs : List ev} {s : σ}
    (h : ∀ x ∈ evs, (P x → step s x = .ok s) ∧ (¬ P x → step s x = .error e)) :
    ((∀ x ∈ evs, P x) → evs.foldlM step s = .ok s) ∧ (¬ (∀ x ∈ evs, P x) → evs.foldlM step s = .error e) := by
  induction evs with
  | nil => exact ⟨fun _ => rfl, fun hsome => absurd (fun x hx => absurd hx List.not_mem_nil) hsome⟩
  | cons x rest ih =>
    obtain ⟨hsame, hfail⟩ := ih fun y hy => h y (List.mem_cons_of_mem _ hy)
    obtain ⟨hstay, hstop⟩ := h x List.mem_cons_self
    rw [List.foldlM_cons]
    constructor
    · intro hall
      rw [hstay (hall x List.mem_cons_self)]
      exact hsame fun y hy => hall y (List.mem_cons_of_mem _ hy)
    · intro hsome
      by_cases hx : P x
      · rw [hstay hx]
        exact hfail fun hrest => hsome (List.forall_mem_cons.mpr ⟨hx, hrest⟩)
      · rw [hstop hx]
        rfl

theorem forall_split_of_get {ev : Type v} {P : List ev → ev → Prop} {evs : List ev}
    (h : ∀ i : Fin evs.length, P (evs.take i) (evs.get i)) :
    ∀ before x after, evs = before ++ x :: after → P before x := by
  intro before x after heq
  subst heq
  have hhere := h ⟨before.length, by simp⟩
  simpa using hhere

end Gart.Outcome
