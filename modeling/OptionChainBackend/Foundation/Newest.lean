import Mathlib.Data.Finset.Sort

/-!
The greatest elements of a finite set. A store that takes one element after the other and keeps the
greatest `n` holds the greatest `n` of all it was given, in whatever order they came.
-/
namespace Foundation
variable {α : Type} [LinearOrder α] {n : ℕ} {s : Finset α} {x y : α} {l : List α}

/-- The elements with fewer than `n` above them. -/
def newest (n : ℕ) (s : Finset α) : Finset α := s.filter fun x => (s.filter (x < ·)).card < n

theorem mem_newest : x ∈ newest n s ↔ x ∈ s ∧ (s.filter (x < ·)).card < n := Finset.mem_filter

theorem newest_subset (n : ℕ) (s : Finset α) : newest n s ⊆ s := Finset.filter_subset _ _

theorem card_above_le {s' : Finset α} (h : s ⊆ s') (hyx : y ≤ x) :
    (s.filter (x < ·)).card ≤ (s'.filter (y < ·)).card := by
  apply Finset.card_le_card
  intro z hz
  simp only [Finset.mem_filter] at hz ⊢
  exact ⟨h hz.1, hyx.trans_lt hz.2⟩

/-- What is above a kept element is kept. -/
theorem newest_upward (hx : x ∈ newest n s) (hy : y ∈ s) (hxy : x ≤ y) : y ∈ newest n s :=
  mem_newest.mpr ⟨hy, (card_above_le (le_refl s) hxy).trans_lt (mem_newest.mp hx).2⟩

/-- A new element brings back nothing that was dropped. -/
theorem newest_of_insert (hy : y ∈ newest n (insert x s)) (hs : y ∈ s) : y ∈ newest n s :=
  mem_newest.mpr ⟨hs, (card_above_le (Finset.subset_insert x s) le_rfl).trans_lt
    (mem_newest.mp hy).2⟩

/-- The end of an ascending list. -/
theorem toFinset_drop (h : l.Pairwise (· < ·)) :
    (l.drop (l.length - n)).toFinset = newest n l.toFinset := by
  induction l with
  | nil => simp [newest]
  | cons a l ih =>
    obtain ⟨ha, hl⟩ := List.pairwise_cons.mp h
    have hnot : a ∉ l := fun hmem => lt_irrefl a (ha a hmem)
    have habove : (insert a l.toFinset).filter (a < ·) = l.toFinset := by
      ext y
      simp only [Finset.mem_filter, Finset.mem_insert, List.mem_toFinset]
      constructor
      · rintro ⟨rfl | hy, hlt⟩
        · exact absurd hlt (lt_irrefl _)
        · exact hy
      · exact fun hy => ⟨.inr hy, ha y hy⟩
    have hcard : l.toFinset.card = l.length := List.toFinset_card_of_nodup (hl.imp ne_of_lt)
    have hrest : ∀ y ∈ l, (insert a l.toFinset).filter (y < ·) = l.toFinset.filter (y < ·) := by
      intro y hy
      rw [Finset.filter_insert, if_neg (not_lt.mpr (ha y hy).le)]
    have hiff : ∀ y, y ∈ newest n (insert a l.toFinset) ↔
        (y = a ∧ l.length < n) ∨ y ∈ newest n l.toFinset := by
      intro y
      simp only [mem_newest, Finset.mem_insert, List.mem_toFinset]
      constructor
      · rintro ⟨rfl | hy, hlt⟩
        · rw [habove, hcard] at hlt
          exact .inl ⟨rfl, hlt⟩
        · rw [hrest y hy] at hlt
          exact .inr ⟨hy, hlt⟩
      · rintro (⟨rfl, hlt⟩ | ⟨hy, hlt⟩)
        · rw [habove, hcard]
          exact ⟨.inl rfl, hlt⟩
        · rw [hrest y hy]
          exact ⟨.inr hy, hlt⟩
    ext y
    rw [List.toFinset_cons, hiff, ← ih hl]
    by_cases hn : l.length < n
    · have hall : (a :: l).length - n = 0 := by
        rw [List.length_cons]
        omega
      have hdrop : l.length - n = 0 := by omega
      rw [hall, hdrop]
      simp [hn]
    · have hshift : (a :: l).length - n = l.length - n + 1 := by
        rw [List.length_cons]
        omega
      rw [hshift]
      simp [hn]

theorem card_newest (n : ℕ) (s : Finset α) : (newest n s).card = min n s.card := by
  have hsorted : (s.sort (· ≤ ·)).Pairwise (· < ·) := (Finset.sortedLT_sort s).pairwise
  have hdrop := toFinset_drop (n := n) hsorted
  rw [Finset.sort_toFinset] at hdrop
  rw [← hdrop, List.toFinset_card_of_nodup]
  · simp only [List.length_drop, Finset.length_sort]
    omega
  · exact ((hsorted.imp ne_of_lt).sublist (List.drop_sublist _ _))

/-- One element more: what is kept of the elements kept so far is what is kept of all. -/
theorem newest_insert (n : ℕ) (x : α) (s : Finset α) :
    newest n (insert x (newest n s)) = newest n (insert x s) := by
  have hsub : insert x (newest n s) ⊆ insert x s := Finset.insert_subset_insert x (newest_subset n s)
  ext y
  constructor
  · intro hy
    obtain ⟨hmem, hlt⟩ := mem_newest.mp hy
    refine mem_newest.mpr ⟨hsub hmem, ?_⟩
    by_cases hall : ∀ z ∈ s, y < z → z ∈ newest n s
    · have hsame : (insert x s).filter (y < ·) = (insert x (newest n s)).filter (y < ·) := by
        ext z
        simp only [Finset.mem_filter, Finset.mem_insert]
        constructor
        · rintro ⟨rfl | hz, hyz⟩
          · exact ⟨.inl rfl, hyz⟩
          · exact ⟨.inr (hall z hz hyz), hyz⟩
        · rintro ⟨rfl | hz, hyz⟩
          · exact ⟨.inl rfl, hyz⟩
          · exact ⟨.inr (newest_subset n s hz), hyz⟩
      rw [hsame]
      exact hlt
    · -- an element above `y` was dropped, so all `n` that were kept lie above `y`
      push Not at hall
      obtain ⟨z, hz, hyz, hdropped⟩ := hall
      have hfull : n ≤ s.card := by
        have hmany : n ≤ (s.filter (z < ·)).card :=
          Nat.not_lt.mp fun hfew => hdropped (mem_newest.mpr ⟨hz, hfew⟩)
        exact hmany.trans (Finset.card_filter_le _ _)
      have habove : newest n s ⊆ (insert x (newest n s)).filter (y < ·) := by
        intro w hw
        refine Finset.mem_filter.mpr ⟨Finset.mem_insert_of_mem hw, ?_⟩
        by_contra hwy
        exact hdropped (newest_upward hw hz ((not_lt.mp hwy).trans hyz.le))
      have hcard := Finset.card_le_card habove
      rw [card_newest] at hcard
      omega
  · intro hy
    obtain ⟨hmem, hlt⟩ := mem_newest.mp hy
    refine mem_newest.mpr ⟨?_, (card_above_le hsub le_rfl).trans_lt hlt⟩
    rcases Finset.mem_insert.mp hmem with rfl | hs
    · exact Finset.mem_insert_self _ _
    · exact Finset.mem_insert_of_mem (newest_of_insert hy hs)

end Foundation
