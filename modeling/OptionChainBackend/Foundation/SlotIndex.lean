import Mathlib.Logic.Function.Basic
import OptionChainBackend.Foundation.Table

/-!
A reverse index over a table of records. Every record has a position; the index names, for
each position, the record that holds it. The rules say how the two are kept in step.
-/
namespace Foundation

variable {ι ρ π : Type} [DecidableEq ι] [DecidableEq π]

/-- `index` names exactly the live records, each at its own position. -/
def Agrees (live : Table ι ρ) (pos : ρ → π) (index : π → Option ι) : Prop :=
  ∀ p i, index p = some i ↔ ∃ r, live.lookup i = some r ∧ pos r = p

namespace Agrees
variable {live : Table ι ρ} {pos : ρ → π} {index : π → Option ι} {i j : ι} {r r' : ρ} {p : π}

omit [DecidableEq π] in
theorem empty : Agrees (∅ : Table ι ρ) pos fun _ => none := by
  intro p i
  simp

omit [DecidableEq π] in
theorem index_eq (h : Agrees live pos index) (hi : live.lookup i = some r) :
    index (pos r) = some i := (h _ _).mpr ⟨r, hi, rfl⟩

omit [DecidableEq π] in
/-- No two live records share a position. -/
theorem injective (h : Agrees live pos index) (hi : live.lookup i = some r)
    (hj : live.lookup j = some r') (hp : pos r = pos r') : i = j := by
  have h1 := h.index_eq hi
  have h2 := h.index_eq hj
  rw [hp, h2] at h1
  exact (Option.some.inj h1).symm

theorem erase (h : Agrees live pos index) (hi : live.lookup i = some r) :
    Agrees (live.erase i) pos (Function.update index (pos r) none) := by
  intro p j
  rw [Function.update_apply]
  by_cases hp : p = pos r
  · subst hp
    simp only [if_true, reduceCtorEq, Table.lookup_erase_eq, false_iff, not_exists, not_and]
    intro r' hj hr'
    split_ifs at hj with hji
    exact hji (h.injective hj hi hr')
  · rw [if_neg hp, h p j]
    constructor
    · rintro ⟨r', hj, rfl⟩
      have hji : j ≠ i := by
        rintro rfl
        rw [hi] at hj
        exact hp (Option.some.inj hj ▸ rfl)
      exact ⟨r', by simpa [hji] using hj, rfl⟩
    · rintro ⟨r', hj, rfl⟩
      rw [Table.lookup_erase_eq] at hj
      split_ifs at hj
      exact ⟨r', hj, rfl⟩

theorem insert (h : Agrees live pos index) (hi : live.lookup i = none)
    (hfree : index (pos r) = none) :
    Agrees (live.insert i r) pos (Function.update index (pos r) (some i)) := by
  intro p j
  rw [Function.update_apply]
  by_cases hp : p = pos r
  · subst hp
    simp only [if_true, Option.some.injEq, Table.lookup_insert_eq]
    constructor
    · rintro rfl
      exact ⟨r, by simp, rfl⟩
    · rintro ⟨r', hj, hr'⟩
      split_ifs at hj with hji
      · exact hji.symm
      · have hidx := (h (pos r) j).mpr ⟨r', hj, hr'⟩
        rw [hfree] at hidx
        cases hidx
  · rw [if_neg hp, h p j]
    constructor
    · rintro ⟨r', hj, rfl⟩
      have hji : j ≠ i := by
        rintro rfl
        rw [hi] at hj
        cases hj
      exact ⟨r', by simpa [hji] using hj, rfl⟩
    · rintro ⟨r', hj, rfl⟩
      rw [Table.lookup_insert_eq] at hj
      split_ifs at hj
      · exact absurd (congrArg pos (Option.some.inj hj)).symm hp
      · exact ⟨r', hj, rfl⟩

omit [DecidableEq π] in
/-- Rewriting a record in place keeps the index. -/
theorem rewrite (h : Agrees live pos index) (hi : live.lookup i = some r)
    (hp : pos r' = pos r) : Agrees (live.insert i r') pos index := by
  intro p j
  rw [h p j]
  by_cases hj : j = i
  · subst hj
    simp [hi, hp]
  · simp [hj]

omit [DecidableEq π] in
/-- Dropping every record of a region, and the region's part of the index. -/
theorem restrict (h : Agrees live pos index) {live' : Table ι ρ} (region : π → Prop)
    [DecidablePred region]
    (hlive : ∀ j r, live'.lookup j = some r ↔ live.lookup j = some r ∧ ¬ region (pos r)) :
    Agrees live' pos fun p => if region p then none else index p := by
  intro p j
  dsimp only
  by_cases hp : region p
  · simp only [hp, if_true, reduceCtorEq, false_iff, not_exists, not_and]
    rintro r hr rfl
    exact ((hlive j r).mp hr).2 hp
  · rw [if_neg hp, h p j]
    constructor
    · rintro ⟨r, hr, rfl⟩
      exact ⟨r, (hlive j r).mpr ⟨hr, hp⟩, rfl⟩
    · rintro ⟨r, hr, rfl⟩
      exact ⟨r, ((hlive j r).mp hr).1, rfl⟩

end Agrees
end Foundation
