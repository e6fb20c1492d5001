import Mathlib.Algebra.Ring.Nat
import Mathlib.Data.List.Perm.Subperm

/-!
Pages of a list. One that stays as it is comes out of its pages piece by piece; in one that grows
in front, an item is only ever pushed towards the pages that are still to be read.
-/
namespace Foundation
variable {α : Type} {l : List α} {limit : ℕ}

def page (offset limit : ℕ) (l : List α) : List α := (l.drop offset).take limit

theorem flatMap_page (l : List α) (limit n : ℕ) :
    ((List.range n).flatMap fun k => page (k * limit) limit l) = l.take (n * limit) := by
  induction n with
  | zero => simp
  | succ n ih =>
    rw [List.range_succ, List.flatMap_append, ih, Nat.succ_mul, List.take_add]
    simp [page]

theorem page_eq_nil_iff (hlimit : 0 < limit) {offset : ℕ} :
    page offset limit l = [] ↔ l.length ≤ offset := by
  unfold page
  rw [List.take_eq_nil_iff, List.drop_eq_nil_iff]
  omega

/-- A count that does not fall is passed by its page. -/
theorem exists_page {rank : ℕ → ℕ} (hmono : ∀ k, rank k ≤ rank (k + 1)) {n : ℕ}
    (hn : rank n < n * limit) : ∃ k < n, k * limit ≤ rank k ∧ rank k < k * limit + limit := by
  induction n with
  | zero => omega
  | succ n ih =>
    by_cases hlt : rank n < n * limit
    · obtain ⟨k, hk, hrank⟩ := ih hlt
      exact ⟨k, Nat.lt_succ_of_lt hk, hrank⟩
    · refine ⟨n, n.lt_succ_self, Nat.le_of_not_lt hlt, ?_⟩
      have hle := hmono n
      rw [Nat.succ_mul] at hn
      omega

section Ranked
variable {key : α → ℕ} {a : α}

/-- Among items in descending order, one with a key of its own stands behind just those with a
greater key. -/
theorem mem_page (hsorted : l.Pairwise fun a b => key b ≤ key a) (hnodup : l.Nodup) (ha : a ∈ l)
    (halone : ∀ b ∈ l, key b = key a → b = a) {offset : ℕ}
    (hlow : offset ≤ l.countP fun b => key a < key b)
    (hhigh : (l.countP fun b => key a < key b) < offset + limit) : a ∈ page offset limit l := by
  obtain ⟨before, after, rfl⟩ := List.append_of_mem ha
  obtain ⟨-, hafter, hcross⟩ := List.pairwise_append.mp hsorted
  have hfront : ∀ b ∈ before, key a < key b := by
    intro b hb
    refine lt_of_le_of_ne (hcross b hb a List.mem_cons_self) fun hkey => ?_
    obtain rfl := halone b (List.mem_append_left _ hb) hkey.symm
    exact (List.nodup_append.mp hnodup).2.2 b hb b List.mem_cons_self rfl
  have hback : ∀ b ∈ a :: after, ¬ key a < key b := by
    intro b hb
    rcases List.mem_cons.mp hb with rfl | hb
    · exact lt_irrefl _
    · exact Nat.not_lt.mpr ((List.pairwise_cons.mp hafter).1 b hb)
  have hrank : ((before ++ a :: after).countP fun b => key a < key b) = before.length := by
    rw [List.countP_append, List.countP_eq_length.mpr fun b hb => decide_eq_true (hfront b hb),
      List.countP_eq_zero.mpr fun b hb => by simpa using hback b hb, Nat.add_zero]
  rw [hrank] at hlow hhigh
  unfold page
  rw [List.drop_append_of_le_length hlow, List.take_append, List.mem_append]
  refine .inr ?_
  rw [List.length_drop, show limit - (before.length - offset) =
    limit - (before.length - offset) - 1 + 1 by omega, List.take_succ_cons]
  exact List.mem_cons_self

/-- Whoever reads on until a page is empty has met every item with a key of its own that was there
from the first page on, whatever came in meanwhile. -/
theorem exists_mem_page {lists : ℕ → List α}
    (hsorted : ∀ k, (lists k).Pairwise fun a b => key b ≤ key a)
    (hnodup : ∀ k, (lists k).Nodup) (hgrow : ∀ k, lists k ⊆ lists (k + 1)) (ha : a ∈ lists 0)
    (halone : ∀ k, ∀ b ∈ lists k, key b = key a → b = a) (hlimit : 0 < limit) {n : ℕ}
    (hend : page (n * limit) limit (lists n) = []) :
    ∃ k < n, a ∈ page (k * limit) limit (lists k) := by
  have hmem : ∀ k, a ∈ lists k := by
    intro k
    induction k with
    | zero => exact ha
    | succ k ih => exact hgrow k ih
  have hmono : ∀ k, ((lists k).countP fun b => key a < key b) ≤
      (lists (k + 1)).countP fun b => key a < key b :=
    fun k => (List.subperm_of_subset (hnodup k) (hgrow k)).countP_le _
  have hlast : ((lists n).countP fun b => key a < key b) < n * limit := by
    have hlength := (page_eq_nil_iff hlimit).mp hend
    have hcount : ((lists n).countP fun b => key a < key b) < (lists n).length := by
      refine lt_of_le_of_ne List.countP_le_length fun hall => ?_
      exact absurd (List.countP_eq_length.mp hall a (hmem n)) (by simp)
    omega
  obtain ⟨k, hk, hlow, hhigh⟩ := exists_page hmono hlast
  exact ⟨k, hk, mem_page (hsorted k) (hnodup k) (hmem k) (halone k) hlow hhigh⟩

end Ranked
end Foundation
