import Mathlib.Algebra.BigOperators.Group.List.Basic
import Mathlib.Algebra.Order.BigOperators.Group.List
import Mathlib.Algebra.Order.Group.Nat
import Mathlib.Algebra.Ring.Nat
import Mathlib.Data.List.Basic

/-! Calls that share a state, each making one operation at a time. -/
namespace Foundation

/-- A shared state and every call made so far. -/
structure Pool (σ γ : Type) where
  shared : σ
  calls : List γ

namespace Pool
variable {σ γ : Type} {p : Pool σ γ} {f : σ → γ → σ × γ} {i : ℕ} {c : γ} {w : γ → ℕ}
  {P : γ → Prop}

/-- A call begins. -/
def start (p : Pool σ γ) (c : γ) : Pool σ γ := { p with calls := p.calls ++ [c] }

/-- Call `i`, if there is one, makes its next operation. -/
def advance (p : Pool σ γ) (i : ℕ) (f : σ → γ → σ × γ) : Pool σ γ :=
  match p.calls[i]? with
  | none => p
  | some c => ⟨(f p.shared c).1, p.calls.set i (f p.shared c).2⟩

/-- What the calls hold together, each weighed by `w`. -/
def held (p : Pool σ γ) (w : γ → ℕ) : ℕ := (p.calls.map w).sum

theorem advance_none (h : p.calls[i]? = none) (f : σ → γ → σ × γ) : p.advance i f = p := by
  simp [advance, h]

theorem advance_some (h : p.calls[i]? = some c) (f : σ → γ → σ × γ) :
    p.advance i f = ⟨(f p.shared c).1, p.calls.set i (f p.shared c).2⟩ := by
  simp [advance, h]

theorem held_start (p : Pool σ γ) (c : γ) (w : γ → ℕ) : (p.start c).held w = p.held w + w c := by
  simp [held, start]

theorem sum_set (l : List γ) (w : γ → ℕ) (c' : γ) (h : l[i]? = some c) :
    ((l.set i c').map w).sum + w c = (l.map w).sum + w c' := by
  induction l generalizing i with
  | nil => simp at h
  | cons d l ih =>
    cases i with
    | zero =>
      obtain rfl : d = c := by simpa using h
      simp only [List.set_cons_zero, List.map_cons, List.sum_cons]
      omega
    | succ i =>
      have htail := ih (i := i) (by simpa using h)
      simp only [List.set_cons_succ, List.map_cons, List.sum_cons]
      omega

/-- An operation exchanges what its call holds. -/
theorem held_advance (h : p.calls[i]? = some c) (f : σ → γ → σ × γ) (w : γ → ℕ) :
    (p.advance i f).held w + w c = p.held w + w (f p.shared c).2 := by
  rw [advance_some h]
  exact sum_set p.calls w _ h

theorem le_held (h : p.calls[i]? = some c) (w : γ → ℕ) : w c ≤ p.held w :=
  List.single_le_sum (by simp) _ (List.mem_map_of_mem (List.mem_of_getElem? h))

theorem held_eq_zero (h : ∀ c ∈ p.calls, w c = 0) : p.held w = 0 := by
  apply List.sum_eq_zero
  simpa using h

/-- Every other call stays where it is. -/
theorem mem_advance_of_ne {d : γ} (h : p.calls[i]? = some c) (hd : d ∈ p.calls) (hne : d ≠ c) :
    d ∈ (p.advance i f).calls := by
  rw [advance_some h]
  obtain ⟨j, hj⟩ := List.mem_iff_getElem?.mp hd
  have hij : i ≠ j := by
    rintro rfl
    exact hne (Option.some.inj (hj.symm.trans h))
  apply List.mem_of_getElem? (i := j)
  rw [List.getElem?_set_ne hij]
  exact hj

theorem mem_advance (h : p.calls[i]? = some c) : (f p.shared c).2 ∈ (p.advance i f).calls := by
  rw [advance_some h]
  exact List.mem_set (List.getElem?_eq_some_iff.mp h).1 _

/-- A property some call has, unless it was the one that moved and lost it. -/
theorem exists_advance (h : p.calls[i]? = some c) (hP : ∃ d ∈ p.calls, P d)
    (hkeep : P c → P (f p.shared c).2) : ∃ d ∈ (p.advance i f).calls, P d := by
  obtain ⟨d, hd, hPd⟩ := hP
  by_cases hne : d = c
  · exact ⟨_, mem_advance h, hkeep (hne ▸ hPd)⟩
  · exact ⟨d, mem_advance_of_ne h hd hne, hPd⟩

/-- The call that began last makes its next operation. -/
theorem advance_last (s : σ) (l : List γ) (c : γ) (f : σ → γ → σ × γ) :
    advance ⟨s, l ++ [c]⟩ l.length f = ⟨(f s c).1, l ++ [(f s c).2]⟩ := by
  rw [advance_some (c := c) (by simp)]
  simp

section Results
variable {β : Type} {g : γ → Option β} {b : β}

/-- What the calls have come to, of those that `g` finds a result in. -/
def results (p : Pool σ γ) (g : γ → Option β) : List β := p.calls.filterMap g

theorem results_start (hc : g c = none) : (p.start c).results g = p.results g := by
  simp [results, start, hc]

theorem filterMap_set {l : List γ} {c' : γ} (h : l[i]? = some c) (hg : g c' = g c) :
    (l.set i c').filterMap g = l.filterMap g := by
  induction l generalizing i with
  | nil => simp
  | cons d l ih =>
    cases i with
    | zero =>
      obtain rfl : d = c := by simpa using h
      simp [List.filterMap_cons, hg]
    | succ i => simp [List.filterMap_cons, ih (i := i) (by simpa using h)]

theorem filterMap_set_perm {l : List γ} {c' : γ} (h : l[i]? = some c) (hc : g c = none)
    (hb : g c' = some b) : ((l.set i c').filterMap g).Perm (b :: l.filterMap g) := by
  induction l generalizing i with
  | nil => simp at h
  | cons d l ih =>
    cases i with
    | zero =>
      obtain rfl : d = c := by simpa using h
      simp [hb, hc]
    | succ i =>
      have htail := ih (i := i) (by simpa using h)
      cases hd : g d with
      | none => simpa [List.filterMap_cons, hd] using htail
      | some b' =>
        simp only [List.set_cons_succ, List.filterMap_cons, hd]
        exact (htail.cons b').trans (.swap b b' _)

/-- An operation that changes no result. -/
theorem results_advance (h : p.calls[i]? = some c) (hg : g (f p.shared c).2 = g c) :
    (p.advance i f).results g = p.results g := by
  rw [advance_some h]
  exact filterMap_set h hg

/-- An operation by which a call comes to its result. -/
theorem results_advance_perm (h : p.calls[i]? = some c) (hc : g c = none)
    (hb : g (f p.shared c).2 = some b) :
    ((p.advance i f).results g).Perm (b :: p.results g) := by
  rw [advance_some h]
  exact filterMap_set_perm h hc hb

end Results

end Pool
end Foundation
