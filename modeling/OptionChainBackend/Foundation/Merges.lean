import Mathlib.Data.List.Perm.Basic
import Mathlib.Data.List.Flatten
import OptionChainBackend.Foundation.Pool

/-!
Rows of operations made side by side. Each row is made in its own order; the log of what was made,
in whichever order the turns fell, is a merge of the rows.
-/
namespace Foundation

variable {α β : Type}

/-- Rows that began one after the other, the log of what was made of them so far, and what each has
still to make. -/
inductive Merges : List (List α) → List α → List (List α) → Prop
  | start : Merges [] [] []
  | join {rows log left} (h : Merges rows log left) (row : List α) :
      Merges (rows ++ [row]) log (left ++ [row])
  | next {rows log left i a rest} (h : Merges rows log left) (hi : left[i]? = some (a :: rest)) :
      Merges rows (log ++ [a]) (left.set i rest)

namespace Merges
variable {rows left : List (List α)} {log row rest : List α} {i : ℕ} {a : α}

theorem length_eq (h : Merges rows log left) : left.length = rows.length := by
  induction h with
  | start => rfl
  | join h row ih => simp [ih]
  | next h hi ih => simpa using ih

theorem exists_row (h : Merges rows log left) (hleft : left[i]? = some rest) :
    ∃ row, rows[i]? = some row := by
  have hlt := (List.getElem?_eq_some_iff.mp hleft).1
  rw [h.length_eq] at hlt
  exact ⟨rows[i], List.getElem?_eq_getElem hlt⟩

theorem exists_left (h : Merges rows log left) (hrow : rows[i]? = some row) :
    ∃ rest, left[i]? = some rest := by
  have hlt := (List.getElem?_eq_some_iff.mp hrow).1
  rw [← h.length_eq] at hlt
  exact ⟨left[i], List.getElem?_eq_getElem hlt⟩

theorem flatten_set_perm {l : List (List α)} (h : l[i]? = some (a :: rest)) :
    (a :: (l.set i rest).flatten).Perm l.flatten := by
  induction l generalizing i with
  | nil => simp at h
  | cons r l ih =>
    cases i with
    | zero =>
      obtain rfl : r = a :: rest := by simpa using h
      simp
    | succ i =>
      have htail := ih (i := i) (by simpa using h)
      rw [List.set_cons_succ, List.flatten_cons, List.flatten_cons]
      exact (List.perm_middle.symm).trans (htail.append_left r)

/-- Nothing is made twice and nothing is lost. -/
theorem perm (h : Merges rows log left) : (log ++ left.flatten).Perm rows.flatten := by
  induction h with
  | start => exact .refl _
  | join h row ih =>
    rw [List.flatten_append, List.flatten_append, ← List.append_assoc]
    exact ih.append_right _
  | next h hi ih =>
    rw [List.append_assoc]
    exact ((flatten_set_perm hi).append_left _).trans ih

/-- What was made of a row comes before what it has still to make, and in the log in its order. -/
theorem made (h : Merges rows log left) (hrow : rows[i]? = some row) (hleft : left[i]? = some rest) :
    ∃ done, row = done ++ rest ∧ done.Sublist log := by
  induction h generalizing rest with
  | start => simp at hrow
  | @join rows log left h row' ih =>
    have hlen := h.length_eq
    by_cases hi : i < rows.length
    · rw [List.getElem?_append_left hi] at hrow
      rw [List.getElem?_append_left (by omega)] at hleft
      exact ih hrow hleft
    · rw [List.getElem?_append_right (by omega)] at hrow hleft
      rw [hlen] at hleft
      obtain rfl : row = rest := Option.some.inj (hrow.symm.trans hleft)
      exact ⟨[], rfl, List.nil_sublist _⟩
  | @next rows log left j b rest' h hj ih =>
    by_cases hij : j = i
    · subst hij
      rw [List.getElem?_set_self (List.getElem?_eq_some_iff.mp hj).1] at hleft
      obtain rfl : rest' = rest := Option.some.inj hleft
      obtain ⟨done, hdone, hsub⟩ := ih hrow hj
      exact ⟨done ++ [b], by simpa using hdone, hsub.append (.refl _)⟩
    · rw [List.getElem?_set_ne hij] at hleft
      obtain ⟨done, hdone, hsub⟩ := ih hrow hleft
      exact ⟨done, hdone, hsub.trans (List.sublist_append_left _ _)⟩

/-- What was made last was made last of its row. -/
theorem last (h : Merges rows log left) (ha : log.getLast? = some a) :
    ∃ (i : ℕ) (done rest : List α), rows[i]? = some (done ++ a :: rest) ∧
      left[i]? = some rest := by
  induction h with
  | start => simp at ha
  | @join rows log left h row ih =>
    obtain ⟨i, done, rest, hrow, hleft⟩ := ih ha
    have hrows := (List.getElem?_eq_some_iff.mp hrow).1
    have hlefts := (List.getElem?_eq_some_iff.mp hleft).1
    refine ⟨i, done, rest, ?_, ?_⟩
    · rw [List.getElem?_append_left hrows, hrow]
    · rw [List.getElem?_append_left hlefts, hleft]
  | @next rows log left j b rest' h hj ih =>
    obtain rfl : b = a := by simpa using ha
    obtain ⟨row, hrow⟩ := h.exists_row hj
    obtain ⟨done, rfl, -⟩ := h.made hrow hj
    exact ⟨j, done, rest', hrow, List.getElem?_set_self (List.getElem?_eq_some_iff.mp hj).1⟩

/-- The rows seen through `f` are merged as well. -/
theorem filterMap (h : Merges rows log left) (f : α → Option β) :
    Merges (rows.map (·.filterMap f)) (log.filterMap f) (left.map (·.filterMap f)) := by
  induction h with
  | start => exact .start
  | join h row ih => simpa using ih.join (row.filterMap f)
  | @next rows log left j b rest h hj ih =>
    have hmap : (left.map (·.filterMap f))[j]? = some ((b :: rest).filterMap f) := by simp [hj]
    rw [List.filterMap_append, List.map_set]
    cases hb : f b with
    | none =>
      have hsame : (b :: rest).filterMap f = rest.filterMap f := by simp [hb]
      rw [hsame] at hmap
      have hset : (left.map (·.filterMap f)).set j (rest.filterMap f) =
          left.map (·.filterMap f) := by
        apply List.ext_getElem?
        intro k
        by_cases hk : j = k
        · rw [← hk, hmap, List.getElem?_set_self (List.getElem?_eq_some_iff.mp hmap).1]
        · rw [List.getElem?_set_ne hk]
      simpa [hb, hset] using ih
    | some c =>
      have hcons : (b :: rest).filterMap f = c :: rest.filterMap f := by simp [hb]
      rw [hcons] at hmap
      simpa [hb] using ih.next hmap

/-- Rows merged to the end. -/
def Whole (rows : List (List α)) (log : List α) : Prop := ∃ left, Merges rows log left ∧
  ∀ rest ∈ left, rest = []

theorem Whole.perm (h : Whole rows log) : log.Perm rows.flatten := by
  obtain ⟨left, hm, hnil⟩ := h
  have hflat : left.flatten = [] := List.flatten_eq_nil_iff.mpr hnil
  simpa [hflat] using hm.perm

theorem Whole.sublist (h : Whole rows log) (hrow : row ∈ rows) : row.Sublist log := by
  obtain ⟨left, hm, hnil⟩ := h
  obtain ⟨i, hi⟩ := List.mem_iff_getElem?.mp hrow
  obtain ⟨rest, hleft⟩ := hm.exists_left hi
  obtain ⟨done, rfl, hsub⟩ := hm.made hi hleft
  obtain rfl := hnil rest (List.mem_of_getElem? hleft)
  simpa using hsub

theorem Whole.last (h : Whole rows log) (ha : log.getLast? = some a) :
    ∃ row ∈ rows, row.getLast? = some a := by
  obtain ⟨left, hm, hnil⟩ := h
  obtain ⟨i, done, rest, hrow, hleft⟩ := hm.last ha
  obtain rfl := hnil rest (List.mem_of_getElem? hleft)
  exact ⟨_, List.mem_of_getElem? hrow, by simp⟩

theorem Whole.filterMap (h : Whole rows log) (f : α → Option β) :
    Whole (rows.map (·.filterMap f)) (log.filterMap f) := by
  obtain ⟨left, hm, hnil⟩ := h
  refine ⟨_, hm.filterMap f, ?_⟩
  intro rest hrest
  obtain ⟨r, hr, rfl⟩ := List.mem_map.mp hrest
  simp [hnil r hr]

end Merges

/-- A state that operations move on, and the operations made on it. -/
structure Journal (σ α : Type) where
  state : σ
  log : List α

namespace Journal
variable {σ : Type} {act : σ → α → σ} {p : Pool (Journal σ α) (List α)} {s : σ}
  {rows : List (List α)}

/-- A row makes its next operation. -/
def make (act : σ → α → σ) (j : Journal σ α) : List α → Journal σ α × List α
  | [] => (j, [])
  | a :: rest => (⟨act j.state a, j.log ++ [a]⟩, rest)

/-- The rows that began are merged in the log, and the state is what the log made of `s`. -/
structure Keeps (act : σ → α → σ) (s : σ) (rows : List (List α))
    (p : Pool (Journal σ α) (List α)) : Prop where
  merges : Merges rows p.shared.log p.calls
  state : p.shared.state = p.shared.log.foldl act s

theorem Keeps.fresh (act : σ → α → σ) (s : σ) : Keeps act s [] ⟨⟨s, []⟩, []⟩ := ⟨.start, rfl⟩

theorem Keeps.start (h : Keeps act s rows p) (row : List α) :
    Keeps act s (rows ++ [row]) (p.start row) := ⟨h.merges.join row, h.state⟩

theorem Keeps.advance (h : Keeps act s rows p) (i : ℕ) : Keeps act s rows (p.advance i (make act)) := by
  cases hi : p.calls[i]? with
  | none =>
    rw [Pool.advance_none hi]
    exact h
  | some row =>
    rw [Pool.advance_some hi]
    cases row with
    | nil =>
      have hset : p.calls.set i [] = p.calls := by
        obtain ⟨hlt, he⟩ := List.getElem?_eq_some_iff.mp hi
        conv_lhs => rw [← he, List.set_getElem_self]
      simp only [make, hset]
      exact h
    | cons a rest =>
      refine ⟨h.merges.next hi, ?_⟩
      simp [make, h.state]

theorem Keeps.starts (h : Keeps act s rows p) (new : List (List α)) :
    Keeps act s (rows ++ new) (new.foldl .start p) := by
  induction new generalizing rows p with
  | nil => simpa using h
  | cons row new ih => simpa using ih (h.start row)

theorem Keeps.turns (h : Keeps act s rows p) (is : List ℕ) :
    Keeps act s rows (is.foldl (fun p i => p.advance i (make act)) p) := by
  induction is generalizing p with
  | nil => exact h
  | cons i is ih => exact ih (h.advance i)

/-- The row that began last is made to its end in one go. -/
theorem advance_row (j : Journal σ α) (calls : List (List α)) (row : List α) :
    (List.replicate row.length calls.length).foldl
        (fun (p : Pool (Journal σ α) (List α)) i => p.advance i (make act)) ⟨j, calls ++ [row]⟩ =
      ⟨⟨row.foldl act j.state, j.log ++ row⟩, calls ++ [[]]⟩ := by
  induction row generalizing j with
  | nil => simp
  | cons a rest ih =>
    rw [List.length_cons, List.replicate_succ, List.foldl_cons, Pool.advance_last]
    simpa [make] using ih ⟨act j.state a, j.log ++ [a]⟩

end Journal

/-- What the operations `f` selects make of one state is seen in what all of them make of another. -/
theorem foldl_filterMap {σ τ : Type} {act : σ → α → σ} {act' : τ → β → τ} {f : α → Option β}
    {R : σ → τ → Prop} (hsome : ∀ s t a b, f a = some b → R s t → R (act s a) (act' t b))
    (hnone : ∀ s t a, f a = none → R s t → R (act s a) t) {s : σ} {t : τ} (h : R s t)
    (log : List α) : R (log.foldl act s) ((log.filterMap f).foldl act' t) := by
  induction log generalizing s t with
  | nil => exact h
  | cons a log ih =>
    rw [List.foldl_cons]
    cases hf : f a with
    | none =>
      rw [List.filterMap_cons_none hf]
      exact ih (hnone s t a hf h)
    | some b =>
      rw [List.filterMap_cons_some hf]
      exact ih (hsome s t a b hf h)

end Foundation
