import Mathlib.Data.List.Induction
import Mathlib.Data.List.Sort
import Mathlib.Order.Nat

/-! Values read off a numbered log: the entry with the greatest number decides. -/
namespace Foundation

variable {α β γ : Type} {p : α → Prop} [DecidablePred p] {f : α → β} {k : α → ℕ} {v : β}
  {l l' : List α} {d : α}

/-- `v`, overwritten by the entries that meet `p`, one after the other. -/
def latest (p : α → Prop) [DecidablePred p] (f : α → β) (v : β) (l : List α) : β :=
  l.foldl (fun v e => if p e then f e else v) v

@[simp] theorem latest_nil : latest p f v [] = v := rfl

@[simp] theorem latest_concat : latest p f v (l ++ [d]) = if p d then f d else latest p f v l := by
  simp [latest]

/-- The log in the order of its numbers. -/
def inOrder (k : α → ℕ) (l : List α) : List α := l.insertionSort fun d e => k d ≤ k e

theorem mem_inOrder : d ∈ inOrder k l ↔ d ∈ l := List.mem_insertionSort _

theorem pairwise_inOrder (k : α → ℕ) (l : List α) : (inOrder k l).Pairwise fun d e => k d ≤ k e := by
  have htotal : Std.Total fun d e : α => k d ≤ k e := ⟨fun d e => Nat.le_total _ _⟩
  have htrans : IsTrans α fun d e => k d ≤ k e := ⟨fun _ _ _ => Nat.le_trans⟩
  exact List.pairwise_insertionSort _ l

theorem latest_of_none (h : ∀ e ∈ l, ¬ p e) : latest p f v l = v := by
  induction l using List.reverseRecOn with
  | nil => rfl
  | append_singleton l d ih =>
    rw [latest_concat, if_neg (h d (by simp))]
    exact ih fun e he => h e (List.mem_append_left _ he)

theorem latest_congr {p' : α → Prop} [DecidablePred p'] (h : ∀ e ∈ l, p e ↔ p' e) :
    latest p f v l = latest p' f v l := by
  induction l using List.reverseRecOn with
  | nil => rfl
  | append_singleton l d ih =>
    rw [latest_concat, latest_concat, ih fun e he => h e (List.mem_append_left _ he)]
    simp [h d (by simp)]

/-- In a log in the order of its numbers, the matching entry with the greatest number decides. -/
theorem latest_of_greatest (hsorted : l.Pairwise fun d e => k d ≤ k e) (hd : d ∈ l) (hp : p d)
    (hmax : ∀ e ∈ l, p e → e ≠ d → k e < k d) : latest p f v l = f d := by
  induction l using List.reverseRecOn with
  | nil => cases hd
  | append_singleton l e ih =>
    rw [latest_concat]
    rw [List.pairwise_append] at hsorted
    obtain ⟨hinit, -, hlast⟩ := hsorted
    by_cases hde : e = d
    · rw [hde, if_pos hp]
    · have hmem : d ∈ l := by
        rcases List.mem_append.mp hd with h | h
        · exact h
        · exact absurd (List.mem_singleton.mp h).symm hde
      have hle := hlast d hmem e (List.mem_singleton_self e)
      have hnot : ¬ p e := fun hpe => by
        have := hmax e (by simp) hpe hde
        omega
      rw [if_neg hnot]
      exact ih hinit hmem fun e' he' => hmax e' (List.mem_append_left _ he')

theorem eq_of_same_number (h : l.Pairwise fun d e => k d < k e) {e : α} (hd : d ∈ l) (he : e ∈ l)
    (heq : k d = k e) : d = e :=
  List.inj_on_of_nodup_map ((List.pairwise_map.mpr h).imp Nat.ne_of_lt) hd he heq

/-- A log that matches somewhere has a matching entry with the greatest number. -/
theorem exists_greatest (h : l.Pairwise fun d e => k d < k e) (he : ∃ e ∈ l, p e) :
    ∃ d ∈ l, p d ∧ ∀ e ∈ l, p e → e ≠ d → k e < k d := by
  induction l using List.reverseRecOn with
  | nil => simp at he
  | append_singleton l e ih =>
    rw [List.pairwise_append] at h
    obtain ⟨hinit, -, hlast⟩ := h
    by_cases hp : p e
    · refine ⟨e, by simp, hp, fun e' he' _ hne => ?_⟩
      rcases List.mem_append.mp he' with hl | hl
      · exact hlast e' hl e (List.mem_singleton_self e)
      · exact absurd (List.mem_singleton.mp hl) hne
    · have hsome : ∃ e' ∈ l, p e' := by
        obtain ⟨e', he', hpe⟩ := he
        rcases List.mem_append.mp he' with hl | hl
        · exact ⟨e', hl, hpe⟩
        · exact absurd (List.mem_singleton.mp hl ▸ hpe) hp
      obtain ⟨d, hd, hpd, hmax⟩ := ih hinit hsome
      refine ⟨d, List.mem_append_left _ hd, hpd, fun e' he' hpe hne => ?_⟩
      rcases List.mem_append.mp he' with hl | hl
      · exact hmax e' hl hpe hne
      · exact absurd (List.mem_singleton.mp hl ▸ hpe) hp

/-- Only the entries themselves matter: a log sorted by its numbers reads as the log in which the
numbers were given out, whatever else its entries carry. -/
theorem latest_sorted {g : γ → α} {log : List γ}
    (hlog : log.Pairwise fun d e => k (g d) < k (g e)) (hmem : ∀ d, d ∈ l ↔ ∃ e ∈ log, g e = d) :
    latest p f v (inOrder k l) = latest (fun e => p (g e)) (fun e => f (g e)) v log := by
  have hsorted := pairwise_inOrder k l
  have hin : ∀ d, d ∈ inOrder k l ↔ ∃ e ∈ log, g e = d := fun d => mem_inOrder.trans (hmem d)
  by_cases hsome : ∃ e ∈ log, p (g e)
  · obtain ⟨d, hd, hp, hmax⟩ := exists_greatest (k := fun e => k (g e)) hlog hsome
    rw [latest_of_greatest (k := fun e => k (g e)) (hlog.imp Nat.le_of_lt) hd hp hmax]
    apply latest_of_greatest (k := k) hsorted ((hin _).mpr ⟨d, hd, rfl⟩) hp
    intro e' he' hpe hne
    obtain ⟨e, he, rfl⟩ := (hin _).mp he'
    exact hmax e he hpe fun heq => hne (by rw [heq])
  · have hnone : ∀ e ∈ log, ¬ p (g e) := fun e he hp => hsome ⟨e, he, hp⟩
    rw [latest_of_none hnone]
    apply latest_of_none
    intro d hd hp
    obtain ⟨e, he, rfl⟩ := (hin _).mp hd
    exact hnone e he hp

end Foundation
