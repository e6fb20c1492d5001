import Mathlib.Algebra.BigOperators.Group.List.Basic
import Mathlib.Algebra.Order.Ring.Int
import OptionChainBackend.Foundation.Runs

/-!
Amounts summed over the steps of a run. A potential that every step moves by an amount is moved by
the run by their sum.
-/
namespace Foundation

variable {σ ι : Type} {step : σ → ι → σ} {ok ok' : σ → ι → Prop} {g h : σ → ι → ℤ} {s : σ}
  {is : List ι}

/-- What the steps of a run amount to, each valued in the state it is taken in. -/
def sumAlong (step : σ → ι → σ) (g : σ → ι → ℤ) : σ → List ι → ℤ
  | _, [] => 0
  | s, i :: is => g s i + sumAlong step g (step s i) is

theorem Allowed.imp (hok : Allowed step ok s is) (himp : ∀ s i, ok s i → ok' s i) :
    Allowed step ok' s is := by
  induction is generalizing s with
  | nil => trivial
  | cons i is ih => exact ⟨himp s i hok.1, ih hok.2⟩

/-- A potential moved by `g` at every allowed step. -/
theorem potential_foldl (φ : σ → ℤ) (hok : Allowed step ok s is)
    (hstep : ∀ s i, ok s i → φ (step s i) = φ s + g s i) :
    φ (is.foldl step s) = φ s + sumAlong step g s is := by
  induction is generalizing s with
  | nil => exact (Int.add_zero _).symm
  | cons i is ih =>
    show φ (is.foldl step (step s i)) = φ s + (g s i + sumAlong step g (step s i) is)
    rw [ih hok.2, hstep s i hok.1]
    omega

theorem sumAlong_le (hok : Allowed step ok s is) (hle : ∀ s i, ok s i → g s i ≤ h s i) :
    sumAlong step g s is ≤ sumAlong step h s is := by
  induction is generalizing s with
  | nil => exact le_rfl
  | cons i is ih => exact Int.add_le_add (hle s i hok.1) (ih hok.2)

theorem sumAlong_neg : sumAlong step (fun s i => -g s i) s is = -sumAlong step g s is := by
  induction is generalizing s with
  | nil => rfl
  | cons i is ih =>
    simp only [sumAlong, ih]
    omega

theorem sumAlong_sub :
    sumAlong step (fun s i => g s i - h s i) s is = sumAlong step g s is - sumAlong step h s is := by
  induction is generalizing s with
  | nil => rfl
  | cons i is ih =>
    simp only [sumAlong, ih]
    omega

/-- Amounts that no state decides. -/
theorem sumAlong_map (f : ι → ℤ) : sumAlong step (fun _ i => f i) s is = (is.map f).sum := by
  induction is generalizing s with
  | nil => rfl
  | cons i is ih => simp only [sumAlong, ih, List.map_cons, List.sum_cons]

theorem sumAlong_eq_zero (hok : Allowed step ok s is) (hzero : ∀ s i, ok s i → g s i = 0) :
    sumAlong step g s is = 0 := by
  induction is generalizing s with
  | nil => rfl
  | cons i is ih => simp only [sumAlong, hzero s i hok.1, ih hok.2, Int.zero_add]

end Foundation
