import Mathlib.Algebra.BigOperators.Ring.Finset
import Mathlib.Algebra.Order.BigOperators.Group.List
import Mathlib.Algebra.Order.Ring.Int

/-!
A log whose entries are posted to accounts, each to at most one. The balance of an account is what
its entries add up to; the accounts of a set hold together what the entries posted to them do.
-/
namespace Foundation

variable {ε κ : Type} [DecidableEq κ] {posted posted' : ε → Option κ} {amount : ε → ℤ}
  {log log' : List ε} {key : κ}

/-- What the entries of the log that `p` selects add up to. -/
def total (amount : ε → ℤ) (p : ε → Bool) (log : List ε) : ℤ := ((log.filter p).map amount).sum

/-- What the entries posted to the account `key` add up to. -/
def balance (posted : ε → Option κ) (amount : ε → ℤ) (log : List ε) (key : κ) : ℤ :=
  total amount (fun e => posted e = some key) log

section Totals
variable {p p' : ε → Bool}

@[simp] theorem total_nil : total amount p [] = 0 := rfl

theorem total_cons (e : ε) :
    total amount p (e :: log) = (if p e then amount e else 0) + total amount p log := by
  by_cases h : p e <;> simp [total, h]

theorem total_append : total amount p (log ++ log') = total amount p log + total amount p log' := by
  simp [total]

theorem total_congr (h : ∀ e ∈ log, p e = p' e) : total amount p log = total amount p' log := by
  unfold total
  rw [List.filter_congr h]

theorem total_eq_zero (h : ∀ e ∈ log, p e = false) : total amount p log = 0 := by
  have hnone : log.filter p = [] := by
    rw [List.filter_eq_nil_iff]
    intro e he
    rw [h e he]
    exact Bool.false_ne_true
  simp [total, hnone]

theorem total_map {δ : Type} (f : δ → ε) (l : List δ) :
    total amount p (l.map f) = total (fun d => amount (f d)) (fun d => p (f d)) l := by
  simp [total, List.filter_map, Function.comp_def]

/-- A total is within the sizes of all entries. -/
theorem natAbs_total_le (amount : ε → ℤ) (p : ε → Bool) (log : List ε) :
    (total amount p log).natAbs ≤ (log.map fun e => (amount e).natAbs).sum := by
  induction log with
  | nil => simp
  | cons e log ih =>
    rw [total_cons, List.map_cons, List.sum_cons]
    split_ifs <;> omega

end Totals

theorem balance_append : balance posted amount (log ++ log') key =
    balance posted amount log key + balance posted amount log' key := total_append

theorem balance_congr (h : ∀ e ∈ log, posted e = posted' e) :
    balance posted amount log key = balance posted' amount log key := by
  apply total_congr
  intro e he
  rw [h e he]

/-- The accounts of a finite set hold together what the entries posted to one of them add up to. -/
theorem sum_balance (keys : Finset κ) : ∑ key ∈ keys, balance posted amount log key =
    total amount (fun e => (posted e).any (· ∈ keys)) log := by
  induction log with
  | nil => simp [balance]
  | cons e log ih =>
    have hstep : ∀ key, balance posted amount (e :: log) key =
        (if posted e = some key then amount e else 0) + balance posted amount log key := by
      intro key
      unfold balance
      rw [total_cons]
      simp
    simp only [hstep, Finset.sum_add_distrib, ih, total_cons]
    congr 1
    cases he : posted e with
    | none => simp
    | some k =>
      by_cases hk : k ∈ keys
      · simp [hk]
      · simp [hk]

end Foundation
