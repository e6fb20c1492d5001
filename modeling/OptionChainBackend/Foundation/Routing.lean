import Mathlib.Data.List.DropRight
import Mathlib.Data.List.Infix

/-! Route tables: a path is cut into pieces, and a route is a row of fixed pieces and parameters. -/
namespace Foundation
namespace Routing
variable {α γ : Type} [DecidableEq α]

section Pieces
variable {a : α} {xs l : List α}

/-- No piece holds the separator. -/
theorem not_mem_piece (h : l ∈ xs.splitOn a) : a ∉ l := by
  induction xs generalizing l with
  | nil =>
    obtain rfl : l = [] := by simpa using h
    simp
  | cons x xs ih =>
    rw [List.splitOn_cons_eq_if_modifyHead] at h
    obtain ⟨p, ps, hps⟩ := List.exists_cons_of_ne_nil (List.splitOn_ne_nil a xs)
    rw [hps] at h ih
    by_cases hx : x = a
    · rw [if_pos (by simp [hx])] at h
      rcases List.mem_cons.mp h with rfl | h
      · simp
      · exact ih h
    · rw [if_neg (by simp [hx]), List.modifyHead_cons] at h
      rcases List.mem_cons.mp h with rfl | h
      · simp only [List.mem_cons, not_or]
        exact ⟨Ne.symm hx, ih List.mem_cons_self⟩
      · exact ih (List.mem_cons_of_mem _ h)

/-- A text without a separator begins the path exactly when it begins the first piece. -/
theorem prefix_iff_head {w p : List α} {ps : List (List α)} (hw : a ∉ w)
    (h : xs.splitOn a = p :: ps) : w <+: xs ↔ w <+: p := by
  have hxs : [a].intercalate (xs.splitOn a) = xs := List.intercalate_splitOn a
  rw [h] at hxs
  cases ps with
  | nil =>
    rw [List.intercalate_singleton] at hxs
    rw [hxs]
  | cons q qs =>
    rw [List.intercalate_cons_cons] at hxs
    constructor
    · intro hpre
      have hone : p ++ [a] <+: xs := ⟨_, hxs⟩
      have hnot : ¬ p ++ [a] <+: w := fun h =>
        hw (h.subset (List.mem_append_right _ (List.mem_singleton_self a)))
      rcases List.prefix_or_prefix_of_prefix hpre hone with h | h
      · rcases List.prefix_concat_iff.mp h with heq | h
        · exact absurd (heq ▸ List.prefix_rfl) hnot
        · exact h
      · exact absurd h hnot
    · intro hpre
      rw [← hxs, List.append_assoc]
      exact hpre.trans (List.prefix_append _ _)

/-- A path begins with a row of pieces and the beginning of another. -/
theorem prefix_iff {front : List (List α)} {w : List α} (hfront : ∀ l ∈ front, a ∉ l)
    (hw : a ∉ w) : [a].intercalate (front ++ [w]) <+: xs ↔
      ∃ p rest, xs.splitOn a = front ++ p :: rest ∧ w <+: p := by
  induction front generalizing xs with
  | nil =>
    obtain ⟨p, ps, hps⟩ := List.exists_cons_of_ne_nil (List.splitOn_ne_nil a xs)
    rw [List.nil_append, List.intercalate_singleton, prefix_iff_head hw hps, hps]
    simp
  | cons f front ih =>
    have hf : a ∉ f := hfront f List.mem_cons_self
    have hrest : ∀ l ∈ front, a ∉ l := fun l hl => hfront l (List.mem_cons_of_mem _ hl)
    have hcons : [a].intercalate (f :: front ++ [w]) =
        f ++ a :: [a].intercalate (front ++ [w]) := by
      rw [List.cons_append, List.intercalate_cons_of_ne_nil (by simp), List.append_assoc]
      rfl
    rw [hcons]
    constructor
    · rintro ⟨tail, rfl⟩
      have hpre : [a].intercalate (front ++ [w]) <+: [a].intercalate (front ++ [w]) ++ tail :=
        List.prefix_append _ _
      obtain ⟨p, rest, hsplit, hwp⟩ := (ih hrest).mp hpre
      refine ⟨p, rest, ?_, hwp⟩
      rw [List.append_assoc, List.cons_append, List.splitOn_append_cons_self_of_not_mem hf, hsplit]
      rfl
    · rintro ⟨p, rest, hsplit, hwp⟩
      have hpieces : ∀ l ∈ front ++ p :: rest, a ∉ l := fun l hl =>
        not_mem_piece (show l ∈ xs.splitOn a from hsplit ▸ List.mem_cons_of_mem _ hl)
      have hxs : xs = f ++ a :: [a].intercalate (front ++ p :: rest) := by
        have hback : [a].intercalate (xs.splitOn a) = xs := List.intercalate_splitOn a
        rw [hsplit, List.cons_append, List.intercalate_cons_of_ne_nil (by simp),
          List.append_assoc] at hback
        exact hback.symm
      have htail : [a].intercalate (front ++ [w]) <+: [a].intercalate (front ++ p :: rest) :=
        (ih hrest).mpr ⟨p, rest, List.splitOn_intercalate a hpieces (by simp), hwp⟩
      rw [hxs, List.prefix_append_right_inj, List.cons_prefix_cons]
      exact ⟨rfl, htail⟩

end Pieces

/-- One piece of a route. -/
inductive Segment (α : Type) where
  | static (name : List α)
  | param
  deriving DecidableEq

abbrev Pattern (α : Type) := List (Segment α)

/-- The pieces are those of the pattern; a parameter takes any piece that is not empty. -/
inductive Fits : Pattern α → List (List α) → Prop
  | nil : Fits [] []
  | static {p : Pattern α} {ls : List (List α)} (l : List α) (h : Fits p ls) :
      Fits (.static l :: p) (l :: ls)
  | param {p : Pattern α} {ls : List (List α)} {l : List α} (hl : l ≠ []) (h : Fits p ls) :
      Fits (.param :: p) (l :: ls)

section Inversion
variable {p : Pattern α} {l : List α} {ls : List (List α)}

omit [DecidableEq α] in
theorem Fits.length_eq (h : Fits p ls) : p.length = ls.length := by
  induction h with
  | nil => rfl
  | static l h ih => simp [ih]
  | param hl h ih => simp [ih]

omit [DecidableEq α] in
/-- A piece is the one the pattern fixes there, or a parameter. -/
theorem Fits.getElem? (h : Fits p ls) {i : ℕ} (hi : ls[i]? = some l) :
    p[i]? = some (.static l) ∨ p[i]? = some .param := by
  induction h generalizing i with
  | nil => cases hi
  | static l' h ih =>
    cases i with
    | zero =>
      obtain rfl := Option.some.inj hi
      exact .inl rfl
    | succ i => exact ih hi
  | param hl h ih =>
    cases i with
    | zero => exact .inr rfl
    | succ i => exact ih hi

omit [DecidableEq α] in
theorem Fits.of_static (h : Fits (.static l :: p) ls) : ∃ ls', ls = l :: ls' ∧ Fits p ls' := by
  cases h with
  | static l h => exact ⟨_, rfl, h⟩

omit [DecidableEq α] in
theorem Fits.of_param (h : Fits (.param :: p) ls) :
    ∃ l ls', ls = l :: ls' ∧ l ≠ [] ∧ Fits p ls' := by
  cases h with
  | param hl h => exact ⟨_, _, rfl, hl, h⟩

omit [DecidableEq α] in
theorem Fits.of_nil (h : Fits [] ls) : ls = [] := by
  cases h
  rfl

end Inversion

/-- What the parameters of a pattern take. -/
def values : Pattern α → List (List α) → List (List α)
  | .param :: p, l :: ls => l :: values p ls
  | .static _ :: p, _ :: ls => values p ls
  | _, _ => []

section Find

/-- The routes that go on after the fixed piece `l`. -/
def afterStatic (l : List α) (table : List (Pattern α × γ)) : List (Pattern α × γ) :=
  table.filterMap fun e =>
    match e.1 with
    | .static l' :: p => if l' = l then some (p, e.2) else none
    | _ => none

/-- The routes that go on after a parameter. -/
def afterParam (table : List (Pattern α × γ)) : List (Pattern α × γ) :=
  table.filterMap fun e =>
    match e.1 with
    | .param :: p => some (p, e.2)
    | _ => none

/-- The route of a path: a fixed piece is tried before a parameter. -/
def find : List (List α) → List (Pattern α × γ) → Option γ
  | [], table => (table.find? fun e => e.1 = []).map Prod.snd
  | l :: ls, table =>
    match find ls (afterStatic l table) with
    | some c => some c
    | none => if l = [] then none else find ls (afterParam table)

variable {table : List (Pattern α × γ)} {ls : List (List α)} {c : γ}

/-- A route that is found is in the table, and fits the path. -/
theorem find_fits (h : find ls table = some c) : ∃ p, (p, c) ∈ table ∧ Fits p ls := by
  induction ls generalizing table with
  | nil =>
    obtain ⟨⟨p, c'⟩, he, rfl⟩ := Option.map_eq_some_iff.mp h
    have hp : p = [] := by simpa using List.find?_some he
    subst hp
    exact ⟨[], List.mem_of_find?_eq_some he, .nil⟩
  | cons l ls ih =>
    unfold find at h
    cases hs : find ls (afterStatic l table) with
    | some c' =>
      rw [hs] at h
      obtain rfl := Option.some.inj h
      obtain ⟨p, hp, hfits⟩ := ih hs
      obtain ⟨⟨q, d⟩, hq, hmatch⟩ := List.mem_filterMap.mp hp
      dsimp only at hmatch
      split at hmatch
      · split_ifs at hmatch with hl
        obtain ⟨rfl, rfl⟩ := Prod.mk.inj (Option.some.inj hmatch)
        subst hl
        exact ⟨_, hq, .static _ hfits⟩
      · cases hmatch
    | none =>
      rw [hs] at h
      dsimp only at h
      split_ifs at h with hl
      obtain ⟨p, hp, hfits⟩ := ih h
      obtain ⟨⟨q, d⟩, hq, hmatch⟩ := List.mem_filterMap.mp hp
      dsimp only at hmatch
      split at hmatch
      · obtain ⟨rfl, rfl⟩ := Prod.mk.inj (Option.some.inj hmatch)
        exact ⟨_, hq, .param hl hfits⟩
      · cases hmatch

/-- Where the patterns differ first, the left one has a fixed piece and the right one a
parameter. -/
inductive Sooner : Pattern α → Pattern α → Prop
  | nil : Sooner [] []
  | cons {q p : Pattern α} (s : Segment α) (h : Sooner q p) : Sooner (s :: q) (s :: p)
  | static {q p : Pattern α} (l : List α) : Sooner (.static l :: q) (.param :: p)

theorem mem_afterStatic {p : Pattern α} {l : List α} (h : (p, c) ∈ afterStatic l table) :
    (.static l :: p, c) ∈ table := by
  obtain ⟨⟨q, d⟩, hq, hmatch⟩ := List.mem_filterMap.mp h
  dsimp only at hmatch
  split at hmatch
  · split_ifs at hmatch with hl
    obtain ⟨rfl, rfl⟩ := Prod.mk.inj (Option.some.inj hmatch)
    exact hl ▸ hq
  · cases hmatch

omit [DecidableEq α] in
theorem mem_afterParam {p : Pattern α} (h : (p, c) ∈ afterParam table) :
    (.param :: p, c) ∈ table := by
  obtain ⟨⟨q, d⟩, hq, hmatch⟩ := List.mem_filterMap.mp h
  dsimp only at hmatch
  split at hmatch
  · obtain ⟨rfl, rfl⟩ := Prod.mk.inj (Option.some.inj hmatch)
    exact hq
  · cases hmatch

/-- Where some route of the table fits, one is found, and none that fits is sooner. -/
theorem find_sooner {p : Pattern α} (hmem : (p, c) ∈ table) (h : Fits p ls) :
    ∃ q d, find ls table = some d ∧ (q, d) ∈ table ∧ Fits q ls ∧ Sooner q p := by
  induction h generalizing table with
  | nil =>
    cases hfind : table.find? fun e => e.1 = [] with
    | none => simpa using List.find?_eq_none.mp hfind _ hmem
    | some e =>
      have he : e.1 = [] := by simpa using List.find?_some hfind
      have hlisted : (e.1, e.2) ∈ table := List.mem_of_find?_eq_some hfind
      rw [he] at hlisted
      exact ⟨[], e.2, by simp [find, hfind], hlisted, .nil, .nil⟩
  | static l h ih =>
    have hafter : (_, c) ∈ afterStatic l table := List.mem_filterMap.mpr ⟨_, hmem, if_pos rfl⟩
    obtain ⟨q, d, hd, hq, hfits, hsooner⟩ := ih hafter
    exact ⟨_, d, by simp [find, hd], mem_afterStatic hq, .static l hfits, .cons _ hsooner⟩
  | param hl h ih =>
    rename_i ls l
    cases hs : find ls (afterStatic l table) with
    | some d =>
      obtain ⟨q, hq, hfits⟩ := find_fits hs
      exact ⟨_, d, by simp [find, hs], mem_afterStatic hq, .static l hfits, .static l⟩
    | none =>
      have hafter : (_, c) ∈ afterParam table := List.mem_filterMap.mpr ⟨_, hmem, rfl⟩
      obtain ⟨q, d, hd, hq, hfits, hsooner⟩ := ih hafter
      exact ⟨_, d, by simp [find, hs, hl, hd], mem_afterParam hq, .param hl hfits,
        .cons _ hsooner⟩

end Find
end Routing
end Foundation
