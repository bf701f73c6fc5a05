import Mathlib.Data.List.Basic

/-!
# Chains of versions

A chain has its versions newest first. A reader at `e` takes the first version that is
not newer than `e`. A writer at `w` changes only a version `w`, so no reader before `w`
notices.
-/

namespace Gart.Versions

universe u
variable {α : Type u}

/-- What a reader at `e` takes. -/
def visible (ver : α → Nat) (e : Nat) (chain : List α) : Option α := chain.find? fun x => ver x ≤ e

/-- No version is newer than `w`. -/
def UpTo (ver : α → Nat) (w : Nat) (chain : List α) : Prop := ∀ x ∈ chain, ver x ≤ w

section chains
variable {ver : α → Nat} {e w : Nat} {x : α} {chain : List α}

theorem visible_cons_of_le (h : ver x ≤ e) : visible ver e (x :: chain) = some x :=
  List.find?_cons_of_pos (decide_eq_true h)

theorem visible_cons_of_lt (h : e < ver x) : visible ver e (x :: chain) = visible ver e chain :=
  List.find?_cons_of_neg (by simp only [decide_eq_true_eq]; omega)

theorem UpTo.mono {w' : Nat} (h : UpTo ver w chain) (hle : w ≤ w') : UpTo ver w' chain :=
  fun x hx => Nat.le_trans (h x hx) hle

theorem UpTo.cons (h : UpTo ver w chain) (hx : ver x ≤ w) : UpTo ver w (x :: chain) := by
  intro y hy
  rcases List.mem_cons.mp hy with rfl | hy
  · exact hx
  · exact h y hy

theorem visible_of_upTo (h : UpTo ver w (x :: chain)) (hwe : w ≤ e) :
    visible ver e (x :: chain) = some x :=
  visible_cons_of_le (Nat.le_trans (h x List.mem_cons_self) hwe)

end chains

/-! ### Writing at a version -/

/-- `chain'` starts with a version `w` that holds `x`, and is `chain` for every earlier reader. -/
structure Opened (ver : α → Nat) (w : Nat) (chain chain' : List α) (x : α) : Prop where
  version : ver x = w
  eq_cons : ∃ rest, chain' = x :: rest ∧ UpTo ver w rest ∧
    ∀ e < w, visible ver e rest = visible ver e chain

section opened
variable {ver : α → Nat} {e w : Nat} {x y : α} {chain chain' rest : List α}

theorem opened_same (hx : ver x = w) (h : UpTo ver w (x :: rest)) :
    Opened ver w (x :: rest) (x :: rest) x where
  version := hx
  eq_cons := ⟨rest, rfl, fun y hy => h y (List.mem_cons_of_mem _ hy),
    fun e he => (visible_cons_of_lt (by rw [hx]; exact he)).symm⟩

theorem opened_cons (hx : ver x = w) (h : UpTo ver w chain) : Opened ver w chain (x :: chain) x where
  version := hx
  eq_cons := ⟨chain, rfl, h, fun _ _ => rfl⟩

theorem Opened.visible_write (h : Opened ver w chain chain' x) {f : α → α} (hf : ver (f x) = w) :
    UpTo ver w (chain'.modifyHead f) ∧ (∀ e < w, visible ver e (chain'.modifyHead f) = visible ver e chain) ∧
      ∀ e, w ≤ e → visible ver e (chain'.modifyHead f) = some (f x) := by
  obtain ⟨rest, rfl, hrest, hold⟩ := h.eq_cons
  rw [List.modifyHead_cons]
  have hup : UpTo ver w (f x :: rest) := hrest.cons (Nat.le_of_eq hf)
  exact ⟨hup, fun e he => (visible_cons_of_lt (by rw [hf]; exact he)).trans (hold e he),
    fun e he => visible_of_upTo hup he⟩

end opened

end Gart.Versions
