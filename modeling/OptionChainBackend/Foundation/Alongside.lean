import Mathlib.Data.List.Forall2

/-! Two lists side by side, related entry by entry. -/
namespace Foundation

variable {α β γ : Type} {R : α → β → Prop} {l : List α} {l' : List β} {a : α} {b : β}

theorem forall₂_exists_left (h : List.Forall₂ R l l') (hb : b ∈ l') : ∃ a ∈ l, R a b := by
  induction h with
  | nil => cases hb
  | @cons c d l l' hcd _ ih =>
    rcases List.mem_cons.mp hb with rfl | hb
    · exact ⟨c, List.mem_cons_self, hcd⟩
    · obtain ⟨a, ha, hab⟩ := ih hb
      exact ⟨a, List.mem_cons_of_mem c ha, hab⟩

theorem forall₂_exists_right (h : List.Forall₂ R l l') (ha : a ∈ l) : ∃ b ∈ l', R a b :=
  forall₂_exists_left h.flip ha

/-- Functions that agree on related entries make the same list of both. -/
theorem forall₂_map_eq {f : α → γ} {g : β → γ} (h : List.Forall₂ R l l')
    (hfg : ∀ a b, R a b → f a = g b) : l.map f = l'.map g := by
  induction h with
  | nil => rfl
  | cons hab _ ih => rw [List.map_cons, List.map_cons, hfg _ _ hab, ih]

theorem forall₂_filter {p : α → Bool} {q : β → Bool} (h : List.Forall₂ R l l')
    (hpq : ∀ a b, R a b → p a = q b) : List.Forall₂ R (l.filter p) (l'.filter q) := by
  induction h with
  | nil => exact .nil
  | @cons a b l l' hab _ ih =>
    rw [List.filter_cons, List.filter_cons, hpq a b hab]
    split_ifs
    · exact .cons hab ih
    · exact ih

/-- The relation may speak of membership. -/
theorem forall₂_with_mem (h : List.Forall₂ R l l') :
    List.Forall₂ (fun a b => R a b ∧ a ∈ l ∧ b ∈ l') l l' := by
  induction h with
  | nil => exact .nil
  | cons hab _ ih =>
    refine .cons ⟨hab, List.mem_cons_self, List.mem_cons_self⟩ (ih.imp fun a b h => ?_)
    exact ⟨h.1, List.mem_cons_of_mem _ h.2.1, List.mem_cons_of_mem _ h.2.2⟩

end Foundation
