import Mathlib.Data.Finset.Card
import Mathlib.Data.Finset.Image
import Mathlib.Data.Finset.Lattice.Lemmas

/-!
A finite set that takes new elements only below a cap, and what a list of elements makes of it.
-/
namespace Foundation
variable {α : Type} [DecidableEq α] {n : ℕ} {s : Finset α} {a b : α} {l : List α} {f : α → α}

/-- `a` is taken in when it is known, or when there is room. -/
def enter (n : ℕ) (s : Finset α) (a : α) : Finset α :=
  if a ∈ s ∨ s.card < n then insert a s else s

theorem enter_of_mem (h : a ∈ s) : enter n s a = s := by
  simp [enter, h]

theorem enter_of_room (h : s.card < n) : enter n s a = insert a s := by
  simp [enter, h]

theorem mem_enter (h : b ∈ enter n s a) : b = a ∨ b ∈ s := by
  unfold enter at h
  split_ifs at h
  · exact Finset.mem_insert.mp h
  · exact .inr h

theorem card_enter (h : s.card ≤ n) : (enter n s a).card ≤ n := by
  by_cases hmem : a ∈ s
  · simpa [enter_of_mem hmem] using h
  · unfold enter
    split_ifs with hroom
    · have hlt : s.card < n := hroom.resolve_left hmem
      have hcard := Finset.card_insert_le a s
      omega
    · exact h

/-- A list whose elements fit goes in whole. -/
theorem foldl_enter (h : (s ∪ l.toFinset).card ≤ n) :
    l.foldl (enter n) s = s ∪ l.toFinset := by
  induction l generalizing s with
  | nil => simp
  | cons a l ih =>
    have hone : enter n s a = insert a s := by
      by_cases hmem : a ∈ s
      · simp [enter_of_mem hmem, hmem]
      · apply enter_of_room
        have hin : insert a s ⊆ s ∪ (a :: l).toFinset := by
          intro b hb
          simp only [Finset.mem_insert, Finset.mem_union, List.toFinset_cons] at hb ⊢
          tauto
        have hcard := Finset.card_le_card hin
        have hnew := Finset.card_insert_of_notMem hmem
        omega
    have hunion : insert a s ∪ l.toFinset = s ∪ (a :: l).toFinset := by
      simp [Finset.union_insert, Finset.insert_union]
    have hrest : (insert a s ∪ l.toFinset).card ≤ n := by
      simpa [hunion] using h
    calc (a :: l).foldl (enter n) s
        = l.foldl (enter n) (insert a s) := by simp [hone]
      _ = insert a s ∪ l.toFinset := ih hrest
      _ = s ∪ (a :: l).toFinset := hunion

/-- What a map that changes nothing twice leaves in place, it leaves in place everywhere. -/
theorem image_eq_self_iff (hf : ∀ a, f (f a) = f a) : s.image f = s ↔ ∀ a ∈ s, f a = a := by
  constructor
  · intro h a ha
    obtain ⟨b, -, rfl⟩ := Finset.mem_image.mp (h ▸ ha)
    exact hf b
  · intro h
    ext a
    simp only [Finset.mem_image]
    constructor
    · rintro ⟨b, hb, rfl⟩
      simpa [h b hb] using hb
    · exact fun ha => ⟨a, ha, h a ha⟩

end Foundation
