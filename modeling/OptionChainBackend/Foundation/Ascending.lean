import Mathlib.Data.List.Pairwise
import Mathlib.Order.Lattice

/-!
A list built by appending what differs from its last element. Of an ascending row it keeps each
value once.
-/
namespace Foundation
variable {α : Type} [DecidableEq α] {l as : List α} {a b : α}

/-- Append `a`, unless it is the last element already. -/
def pushNew (l : List α) (a : α) : List α := if l.getLast? = some a then l else l ++ [a]

theorem mem_pushNew : b ∈ pushNew l a ↔ b ∈ l ∨ b = a := by
  unfold pushNew
  split_ifs with h
  · constructor
    · exact .inl
    · rintro (hb | rfl)
      · exact hb
      · exact List.mem_of_getLast? h
  · simp

theorem length_pushNew_le : (pushNew l a).length ≤ l.length + 1 := by
  unfold pushNew
  split_ifs <;> simp

theorem mem_foldl_pushNew : b ∈ as.foldl pushNew l ↔ b ∈ l ∨ b ∈ as := by
  induction as generalizing l with
  | nil => simp
  | cons a as ih => simp [ih, mem_pushNew, or_assoc]

theorem length_foldl_pushNew_le : (as.foldl pushNew l).length ≤ l.length + as.length := by
  induction as generalizing l with
  | nil => simp
  | cons a as ih =>
    have hrest := ih (l := pushNew l a)
    have hone := length_pushNew_le (l := l) (a := a)
    simp only [List.foldl_cons, List.length_cons]
    omega

section Order
variable {α : Type} [LinearOrder α] {l as : List α} {a : α}

/-- The last element of an ascending list is its greatest. -/
theorem pairwise_pushNew (h : l.Pairwise (· < ·)) (ha : ∀ b ∈ l, b ≤ a) :
    (pushNew l a).Pairwise (· < ·) := by
  unfold pushNew
  split_ifs with hlast
  · exact h
  · rw [List.pairwise_append]
    refine ⟨h, List.pairwise_singleton _ _, fun b hb c hc => ?_⟩
    obtain rfl := List.mem_singleton.mp hc
    apply lt_of_le_of_ne (ha b hb)
    rintro rfl
    -- below an element equal to the new one there is room for no other last element
    obtain ⟨front, rest, rfl⟩ := List.append_of_mem hb
    cases hr : rest.getLast? with
    | none =>
      rw [List.getLast?_eq_none_iff] at hr
      simp [hr] at hlast
    | some d =>
      have hd : d ∈ rest := List.mem_of_getLast? hr
      have habove : b < d := (List.pairwise_cons.mp (List.pairwise_append.mp h).2.1).1 d hd
      exact absurd (ha d (by simp [hd])) (not_le.mpr habove)

theorem pairwise_foldl_pushNew (h : l.Pairwise (· < ·)) (has : as.Pairwise (· ≤ ·))
    (hla : ∀ b ∈ l, ∀ a ∈ as, b ≤ a) : (as.foldl pushNew l).Pairwise (· < ·) := by
  induction as generalizing l with
  | nil => exact h
  | cons a as ih =>
    obtain ⟨ha, has⟩ := List.pairwise_cons.mp has
    apply ih
    · exact pairwise_pushNew h fun b hb => hla b hb a List.mem_cons_self
    · exact has
    · intro b hb c hc
      rcases mem_pushNew.mp hb with hb | rfl
      · exact hla b hb c (List.mem_cons_of_mem a hc)
      · exact ha c hc

end Order

end Foundation
