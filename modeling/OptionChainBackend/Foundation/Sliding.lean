import Mathlib.Algebra.Order.Sub.Defs
import Mathlib.Algebra.Ring.Nat
import Mathlib.Data.List.TakeWhile

/-!
Sliding windows over times. A store that drops only what is below a floor answers every question
about the times from that floor on as if it had dropped nothing.
-/
namespace Foundation
variable {α : Type} [LinearOrder α] {all kept : List α} {s floor floor' : α}

theorem dropWhile_lt_eq_filter {l : List α} (h : l.Pairwise (· ≤ ·)) (s : α) :
    l.dropWhile (· < s) = l.filter (s ≤ ·) := by
  induction l with
  | nil => rfl
  | cons a l ih =>
    obtain ⟨ha, hl⟩ := List.pairwise_cons.mp h
    by_cases hs : a < s
    · simp [hs, hs.not_ge, ih hl]
    · have hle : s ≤ a := not_lt.mp hs
      have hall : ∀ b ∈ l, s ≤ b := fun b hb => hle.trans (ha b hb)
      simp only [List.dropWhile_cons, hs, decide_false, Bool.false_eq_true, if_false]
      rw [eq_comm, List.filter_eq_self]
      simpa [hle] using hall

/-- A later start drops more. -/
theorem length_dropWhile_lt_anti (l : List α) {s s' : α} (h : s ≤ s') :
    (l.dropWhile (· < s')).length ≤ (l.dropWhile (· < s)).length := by
  induction l with
  | nil => simp
  | cons a l ih =>
    by_cases hs : a < s
    · simpa [hs, hs.trans_le h] using ih
    · have hsub := (List.dropWhile_suffix (l := a :: l) (· < s')).length_le
      simpa [hs] using hsub

omit [LinearOrder α] in
/-- What is left of a suffix is no longer than what is left of the whole. -/
theorem length_dropWhile_suffix {l l' : List α} (h : l' <:+ l) (p : α → Bool) :
    (l'.dropWhile p).length ≤ (l.dropWhile p).length := by
  induction l with
  | nil =>
    obtain rfl := List.suffix_nil.mp h
    exact le_rfl
  | cons a l ih =>
    rcases List.suffix_cons_iff.mp h with rfl | htail
    · exact le_rfl
    · by_cases ha : p a
      · simpa [ha] using ih htail
      · have hdrop := (List.dropWhile_suffix (l := l') p).length_le
        have htail := htail.length_le
        simp only [ha, List.dropWhile_cons, Bool.false_eq_true, if_false, List.length_cons]
        omega

/-- `kept` is `all` without some of its first times, each below `floor`. -/
def Remembers (all kept : List α) (floor : α) : Prop :=
  ∃ dropped, all = dropped ++ kept ∧ ∀ t ∈ dropped, t < floor

namespace Remembers

theorem refl (all : List α) (floor : α) : Remembers all all floor := ⟨[], rfl, by simp⟩

theorem append (h : Remembers all kept floor) (t : α) :
    Remembers (all ++ [t]) (kept ++ [t]) floor := by
  obtain ⟨dropped, rfl, hdropped⟩ := h
  exact ⟨dropped, by simp, hdropped⟩

theorem dropWhile (h : Remembers all kept floor) (hs : s ≤ floor) :
    Remembers all (kept.dropWhile (· < s)) floor := by
  obtain ⟨dropped, rfl, hdropped⟩ := h
  refine ⟨dropped ++ kept.takeWhile (· < s), by simp, ?_⟩
  intro t ht
  rcases List.mem_append.mp ht with ht | ht
  · exact hdropped t ht
  · have hlt : t < s := by simpa using List.mem_takeWhile_imp ht
    exact hlt.trans_le hs

/-- From the floor on nothing is missing. -/
theorem dropWhile_eq_filter (h : Remembers all kept floor) (hall : all.Pairwise (· ≤ ·)) :
    kept.dropWhile (· < floor) = all.filter (floor ≤ ·) := by
  obtain ⟨dropped, rfl, hdropped⟩ := h
  have hkept := (List.pairwise_append.mp hall).2.1
  have hnone : dropped.filter (floor ≤ ·) = [] := by
    simpa [List.filter_eq_nil_iff] using hdropped
  simp [dropWhile_lt_eq_filter hkept, hnone]

end Remembers

section Sparse
variable [Add α] [Sub α] {bound : ℕ} {span now : α} {times : List α}

/-- No closed interval of length `span` holds more than `bound` of the times. -/
def Sparse (bound : ℕ) (span : α) (times : List α) : Prop :=
  ∀ t, (times.countP fun x => t ≤ x ∧ x ≤ t + span) ≤ bound

omit [Sub α] in
theorem Sparse.nil : Sparse bound span [] := fun _ => by simp

omit [Sub α] in
theorem Sparse.count_le (h : Sparse bound span times) (t : α) {p : α → Bool}
    (hp : ∀ x, p x → t ≤ x ∧ x ≤ t + span) : times.countP p ≤ bound := by
  apply le_trans _ (h t)
  apply List.countP_mono_left
  intro x _ hx
  exact decide_eq_true (hp x hx)

/-- One more time fits when the interval that ends with it has room. -/
theorem Sparse.append [OrderedSub α] (h : Sparse bound span times)
    (hroom : times.countP (now - span ≤ ·) < bound) : Sparse bound span (times ++ [now]) := by
  intro t
  have hold := h t
  by_cases hin : t ≤ now ∧ now ≤ t + span
  · have hstart : now - span ≤ t := tsub_le_iff_right.mpr hin.2
    have hcount : (times.countP fun x => t ≤ x ∧ x ≤ t + span) ≤
        times.countP (now - span ≤ ·) := by
      apply List.countP_mono_left
      intro x hx hmem
      have hx := (decide_eq_true_iff.mp hmem).1
      simpa using hstart.trans hx
    simp only [List.countP_append, List.countP_singleton, hin, and_self, decide_true, if_true]
    omega
  · simpa [List.countP_append, hin] using hold

end Sparse
end Foundation
