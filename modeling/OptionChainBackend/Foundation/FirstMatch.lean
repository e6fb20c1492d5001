import Mathlib.Data.List.TakeWhile

/-!
The first element of a list that satisfies a predicate, by what stands before it; and the last
writer of a loop.
-/
namespace Foundation

variable {α : Type} [DecidableEq α] {l : List α} {a b : α} {p : α → Bool}

/-- The elements of `l` in front of `a`. -/
def before (l : List α) (a : α) : List α := l.takeWhile (· ≠ a)

theorem before_cons_self : before (a :: l) a = [] := by
  simp [before]

theorem before_cons_of_ne (h : b ≠ a) : before (b :: l) a = b :: before l a := by
  simp [before, h]

theorem ne_of_mem_before (h : b ∈ before l a) : b ≠ a := by
  simpa using List.mem_takeWhile_imp h

/-- `a` is the first match exactly when it is a match and nothing in front of it is one. -/
theorem find?_eq_some_iff_before :
    l.find? p = some a ↔ a ∈ l ∧ p a = true ∧ ∀ b ∈ before l a, p b = false := by
  induction l with
  | nil => simp
  | cons b l ih =>
    by_cases hb : b = a
    · subst hb
      rw [before_cons_self]
      cases hp : p b with
      | true => simp [hp]
      | false =>
        rw [List.find?_cons_of_neg (by simp [hp])]
        simp only [Bool.false_eq_true, false_and, and_false, iff_false]
        intro h
        have := List.find?_some h
        rw [hp] at this
        cases this
    · rw [before_cons_of_ne hb]
      have hne : a ≠ b := fun h => hb h.symm
      cases hp : p b with
      | true =>
        rw [List.find?_cons_of_pos hp]
        simp [hb, hp]
      | false =>
        rw [List.find?_cons_of_neg (by simp [hp]), ih]
        simp [hne, hp]

omit [DecidableEq α] in
/-- Looking for one kind of match first and for another second is looking for either, when the
kinds cannot compete: nothing matches the first way, or whatever matches the second way does. -/
theorem find?_two_passes {q : α → Bool}
    (h : (∀ a ∈ l, p a = false) ∨ ∀ a ∈ l, q a = true → p a = true) :
    (l.find? p).or (l.find? q) = l.find? fun a => p a || q a := by
  induction l with
  | nil => rfl
  | cons a l ih =>
    have hl : (∀ b ∈ l, p b = false) ∨ ∀ b ∈ l, q b = true → p b = true := by
      rcases h with h | h
      · exact .inl fun b hb => h b (List.mem_cons_of_mem a hb)
      · exact .inr fun b hb => h b (List.mem_cons_of_mem a hb)
    cases hp : p a with
    | true => simp [hp]
    | false =>
      cases hq : q a with
      | false => simpa [hp, hq] using ih hl
      | true =>
        have hnone : ∀ b ∈ l, p b = false := by
          rcases h with h | h
          · exact fun b hb => h b (List.mem_cons_of_mem a hb)
          · have := h a List.mem_cons_self hq
            simp [hp] at this
        have hfind : l.find? p = none := by simpa using hnone
        simp [hp, hq, hfind]

section Loop
variable {σ ι β : Type} {step : σ → ι → σ} {is : List ι}

/-- A loop that ends well leaves what the last step that wrote has written. -/
theorem read_foldl_last (read : σ → β) (ok : σ → Prop) (writes : ι → Bool) (value : ι → β)
    (hstep : ∀ s, ∀ i ∈ is, ok (step s i) →
      ok s ∧ read (step s i) = if writes i then value i else read s) {s : σ}
    (hok : ok (is.foldl step s)) : ok s ∧ read (is.foldl step s) =
      ((is.reverse.find? writes).map value).getD (read s) := by
  induction is generalizing s with
  | nil => exact ⟨hok, rfl⟩
  | cons i is ih =>
    obtain ⟨hmid, hrest⟩ := ih (fun s j hj => hstep s j (List.mem_cons_of_mem i hj)) hok
    obtain ⟨hs, hone⟩ := hstep s i List.mem_cons_self hmid
    refine ⟨hs, ?_⟩
    rw [List.foldl_cons, hrest, List.reverse_cons, List.find?_append]
    cases is.reverse.find? writes with
    | some j => rfl
    | none =>
      rw [hone]
      cases hw : writes i <;> simp [hw]

end Loop

end Foundation
