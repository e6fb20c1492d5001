import Mathlib.Algebra.BigOperators.Group.List.Basic
import Mathlib.Algebra.Ring.Nat
import Mathlib.Data.List.Induction
import Mathlib.Data.List.Sort

/-!
Listings: the items a filter keeps, the largest key first, and totals accumulated with a check at
every step.
-/
namespace Foundation

section Filters
variable {α β : Type} {l : List α} {f : α → β} {p : β → Bool} {q : α → Bool}

/-- Of two filters where one implies the other, the longer result is the weaker filter's, unless
they keep the same. -/
theorem agree_of_length (himp : ∀ a ∈ l, q a = true → p (f a) = true)
    (hlen : (l.filter (p ∘ f)).length ≤ (l.filter q).length) : ∀ a ∈ l, p (f a) = q a := by
  have hsub : (l.filter q).Sublist (l.filter (p ∘ f)) := by
    have hboth : l.filter q = (l.filter (p ∘ f)).filter q := by
      rw [List.filter_filter]
      apply List.filter_congr
      intro a ha
      cases hq : q a with
      | false => simp
      | true => simp [himp a ha hq]
    rw [hboth]
    exact List.filter_sublist
  have heq := hsub.eq_of_length_le hlen
  intro a ha
  have hmem : a ∈ l.filter q ↔ a ∈ l.filter (p ∘ f) := by rw [heq]
  simp only [List.mem_filter, ha, true_and, Function.comp_apply] at hmem
  rw [Bool.eq_iff_iff, hmem]

/-- A filter on the images that keeps the images of what `q` keeps decides as `q` does. -/
theorem agree_of_perm (h : ((l.map f).filter p).Perm ((l.filter q).map f)) :
    ∀ a ∈ l, p (f a) = q a := by
  apply agree_of_length
  · intro a ha hq
    have hmem : f a ∈ (l.map f).filter p :=
      h.mem_iff.mpr (List.mem_map_of_mem (List.mem_filter.mpr ⟨ha, hq⟩))
    exact (List.mem_filter.mp hmem).2
  · have hlen := h.length_eq
    rw [List.filter_map, List.length_map, List.length_map] at hlen
    exact hlen.le

end Filters

section Order
variable {α β : Type} {l : List α} {key : α → ℕ}

/-- A stable sort by a key, the largest first. -/
def sortDescending (key : α → ℕ) (l : List α) : List α :=
  l.insertionSort fun a b => key b ≤ key a

theorem sortDescending_perm (key : α → ℕ) (l : List α) : (sortDescending key l).Perm l :=
  List.perm_insertionSort _ l

theorem sortDescending_pairwise (key : α → ℕ) (l : List α) :
    (sortDescending key l).Pairwise fun a b => key b ≤ key a := by
  have : Std.Total fun a b : α => key b ≤ key a := ⟨fun a b => le_total (key b) (key a)⟩
  have : IsTrans α fun a b => key b ≤ key a := ⟨fun _ _ _ hab hbc => hbc.trans hab⟩
  exact List.pairwise_insertionSort _ l

theorem map_sortDescending (key : β → ℕ) (f : α → β) (l : List α) :
    (sortDescending (key ∘ f) l).map f = sortDescending key (l.map f) :=
  List.map_insertionSort (fun a b => (key ∘ f) b ≤ (key ∘ f) a) (fun a b => key b ≤ key a) f l
    fun _ _ _ _ => Iff.rfl

end Order

section Totals
variable {M : Type} [AddMonoid M] {checked : M → Option M}

/-- The total of a list, checked after every addition. -/
def tryTotal (checked : M → Option M) (l : List M) : Option M :=
  l.foldlM (fun acc x => checked (acc + x)) 0

theorem foldlM_checked (hsound : ∀ x y, checked x = some y → y = x) {l : List M} {acc total : M}
    (h : l.foldlM (fun acc x => checked (acc + x)) acc = some total) : total = acc + l.sum := by
  induction l generalizing acc with
  | nil =>
    obtain rfl : acc = total := by simpa using h
    simp
  | cons x l ih =>
    rw [List.foldlM_cons] at h
    obtain ⟨next, hnext, hrest⟩ := Option.bind_eq_some_iff.mp h
    obtain rfl := hsound _ _ hnext
    rw [ih hrest, List.sum_cons, add_assoc]

theorem tryTotal_sound (hsound : ∀ x y, checked x = some y → y = x) {l : List M} {total : M}
    (h : tryTotal checked l = some total) : total = l.sum := by
  simpa using foldlM_checked hsound h

/-- The accumulation goes through when the total of every initial part passes the check. -/
theorem tryTotal_of_initial {l : List M}
    (h : ∀ l', l' <+: l → checked l'.sum = some l'.sum) : tryTotal checked l = some l.sum := by
  induction l using List.reverseRecOn with
  | nil => simp [tryTotal]
  | append_singleton l x ih =>
    have hinit : tryTotal checked l = some l.sum :=
      ih fun l' hl' => h l' (hl'.trans (List.prefix_append l [x]))
    have hlast : checked (l.sum + x) = some (l.sum + x) := by
      simpa using h (l ++ [x]) (List.prefix_rfl)
    unfold tryTotal at hinit ⊢
    simp [List.foldlM_append, hinit, hlast]

end Totals

section Rows
variable {ι ε α β : Type} {l : List ι} {f : ι → Except ε α}

/-- The items of a list whose rows can all be made. -/
theorem exists_rows (h : ∀ i ∈ l, ∃ a, f i = .ok a) : ∃ rows : List α, l.map f = rows.map .ok := by
  induction l with
  | nil => exact ⟨[], rfl⟩
  | cons i l ih =>
    obtain ⟨a, ha⟩ := h i List.mem_cons_self
    obtain ⟨rows, hrows⟩ := ih fun j hj => h j (List.mem_cons_of_mem _ hj)
    exact ⟨a :: rows, by rw [List.map_cons, List.map_cons, ha, hrows]⟩

variable {rows : List α}

theorem mem_rows (h : l.map f = rows.map .ok) {a : α} : a ∈ rows ↔ ∃ i ∈ l, f i = .ok a := by
  rw [← List.mem_map, h, List.mem_map_of_injective fun _ _ he => Except.ok.inj he]

/-- What a row takes over from its item is there in the order of the items. -/
theorem map_rows {g : α → β} {k : ι → β} (hg : ∀ i ∈ l, ∀ a, f i = .ok a → g a = k i)
    (h : l.map f = rows.map .ok) : rows.map g = l.map k := by
  induction l generalizing rows with
  | nil =>
    obtain rfl : rows = [] := by simpa using h.symm
    rfl
  | cons i l ih =>
    cases rows with
    | nil => cases h
    | cons a rows =>
      obtain ⟨ha, hrest⟩ := List.cons_eq_cons.mp h
      rw [List.map_cons, List.map_cons, hg i List.mem_cons_self a ha,
        ih (fun j hj => hg j (List.mem_cons_of_mem _ hj)) hrest]

end Rows
end Foundation
