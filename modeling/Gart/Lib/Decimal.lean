import Mathlib.Algebra.Ring.Int.Defs
import Mathlib.Algebra.Ring.Nat
import Mathlib.Data.List.TakeWhile

/-!
# Decimal numbers in texts

The number readers of the C library on character lists: leading white space, an
optional sign, then as many digits as there are. What a number prints as is read
back as that number.
-/

namespace Gart.Decimal

/-- `isspace` in the C locale. -/
def isSpace (c : Char) : Bool :=
  c = ' ' || c = '\t' || c = '\n' || c = '\x0b' || c = '\x0c' || c = '\r'

def digits (cs : List Char) : Option Nat :=
  match cs.takeWhile Char.isDigit with
  | [] => none
  | ds => some (Nat.ofDigitChars 10 ds 0)

/-- `strtol` with base 10, without its range. -/
def strtol (s : String) : Option Int :=
  match s.toList.dropWhile isSpace with
  | '-' :: cs => (digits cs).map fun n : Nat => -(n : Int)
  | '+' :: cs => (digits cs).map fun n : Nat => (n : Int)
  | cs => (digits cs).map fun n : Nat => (n : Int)

/-- A two's complement number of `w` bits. -/
def InRange (w : Nat) (n : Int) : Prop := -2 ^ (w - 1) ≤ n ∧ n < 2 ^ (w - 1)

instance (w : Nat) (n : Int) : Decidable (InRange w n) := inferInstanceAs (Decidable (_ ∧ _))

/-- Conversion to a signed type of `w` bits. -/
def wrap (w : Nat) (n : Int) : Int := Int.bmod n (2 ^ w)

theorem digits_toDigits (n : Nat) : digits (Nat.toDigits 10 n) = some n := by
  have hall : (Nat.toDigits 10 n).takeWhile Char.isDigit = Nat.toDigits 10 n := by
    rw [List.takeWhile_eq_self_iff]
    intro c hc
    exact Nat.isDigit_of_mem_toDigits (by decide) (by decide) hc
  unfold digits
  rw [hall]
  cases hd : Nat.toDigits 10 n with
  | nil => exact absurd hd Nat.toDigits_ne_nil
  | cons c cs =>
    show some (Nat.ofDigitChars 10 (c :: cs) 0) = some n
    rw [← hd, Nat.ofDigitChars_ten_toDigits]

theorem isDigit_head_toDigits {n : Nat} {c : Char} {cs : List Char}
    (h : Nat.toDigits 10 n = c :: cs) : c.isDigit := by
  apply Nat.isDigit_of_mem_toDigits (b := 10) (n := n) (by decide) (by decide)
  rw [h]
  exact List.mem_cons_self

theorem not_isSpace_of_isDigit {c : Char} (h : c.isDigit) : isSpace c = false := by
  have hnot : ∀ d : Char, d.isDigit = false → c ≠ d := by
    intro d hd heq
    rw [heq, hd] at h
    cases h
  simp only [isSpace, Bool.or_eq_false_iff, decide_eq_false_iff_not]
  exact ⟨⟨⟨⟨⟨hnot _ (by decide), hnot _ (by decide)⟩, hnot _ (by decide)⟩, hnot _ (by decide)⟩,
    hnot _ (by decide)⟩, hnot _ (by decide)⟩

theorem strtol_repr (n : Int) : strtol (toString n) = some n := by
  rw [Int.toString_eq_repr, Int.repr_eq_if]
  split
  case isTrue hpos =>
    unfold strtol
    rw [Nat.toList_repr]
    cases hd : Nat.toDigits 10 n.toNat with
    | nil => exact absurd hd Nat.toDigits_ne_nil
    | cons c cs =>
      have hdigit := isDigit_head_toDigits hd
      have hspace := not_isSpace_of_isDigit hdigit
      rw [List.dropWhile_cons_of_neg (by simp [hspace])]
      split
      case h_1 heq =>
        cases heq
        exact absurd hdigit (by decide)
      case h_2 heq =>
        cases heq
        exact absurd hdigit (by decide)
      case h_3 =>
        rw [← hd, digits_toDigits]
        show some ((n.toNat : Nat) : Int) = some n
        congr 1
        omega
  case isFalse hneg =>
    have hlist : ("-" ++ (-n).toNat.repr).toList = '-' :: Nat.toDigits 10 (-n).toNat := by
      rw [String.toList_append, Nat.toList_repr]
      rfl
    unfold strtol
    rw [hlist, List.dropWhile_cons_of_neg (by decide)]
    show (digits (Nat.toDigits 10 (-n).toNat)).map (fun m : Nat => -(m : Int)) = some n
    rw [digits_toDigits]
    show some (-(((-n).toNat : Nat) : Int)) = some n
    congr 1
    omega

end Gart.Decimal
