import Mathlib.Data.List.Basic

/-! A condition on the elements of a list, each seen with those before it. -/
namespace Foundation

variable {α : Type} {Q Q' : List α → α → Prop} {l : List α} {a : α} {k : ℕ}

/-- Every element meets `Q`, given the elements before it. -/
def EachInTurn (Q : List α → α → Prop) (l : List α) : Prop :=
  ∀ n a, l[n]? = some a → Q (l.take n) a

namespace EachInTurn

theorem nil : EachInTurn Q [] := by
  intro n a h
  cases h

theorem concat_iff : EachInTurn Q (l ++ [a]) ↔ EachInTurn Q l ∧ Q l a := by
  constructor
  · intro h
    constructor
    · intro n b hn
      have hlt := (List.getElem?_eq_some_iff.mp hn).1
      have hall := h n b (by rwa [List.getElem?_append_left hlt])
      rwa [List.take_append_of_le_length (Nat.le_of_lt hlt)] at hall
    · have hall := h l.length a (by simp)
      rwa [List.take_left] at hall
  · rintro ⟨hinit, hlast⟩ n b hn
    rcases Nat.lt_trichotomy n l.length with hlt | rfl | hgt
    · rw [List.getElem?_append_left hlt] at hn
      rw [List.take_append_of_le_length (Nat.le_of_lt hlt)]
      exact hinit n b hn
    · obtain rfl : a = b := by simpa using hn
      rw [List.take_left]
      exact hlast
    · have hlen := (List.getElem?_eq_some_iff.mp hn).1
      rw [List.length_append, List.length_singleton] at hlen
      omega

theorem take (h : EachInTurn Q l) (k : ℕ) : EachInTurn Q (l.take k) := by
  intro n b hn
  have hlt := (List.getElem?_eq_some_iff.mp hn).1
  rw [List.length_take] at hlt
  rw [List.getElem?_take_of_lt (by omega)] at hn
  rw [List.take_take, Nat.min_eq_left (by omega)]
  exact h n b hn

end EachInTurn
end Foundation
