import Mathlib.Data.List.AList

/-! Finite maps as association lists, with the read-after-write rules in one form. -/
namespace Foundation

/-- A finite map from `κ` to `υ`. -/
abbrev Table (κ υ : Type) := AList fun _ : κ => υ

namespace Table
variable {κ υ : Type} [DecidableEq κ]

@[simp] theorem lookup_insert_eq (t : Table κ υ) (k j : κ) (v : υ) :
    AList.lookup j (t.insert k v) = if j = k then some v else t.lookup j := by
  split_ifs with h
  · subst h
    exact AList.lookup_insert t
  · exact AList.lookup_insert_ne h

@[simp] theorem lookup_erase_eq (t : Table κ υ) (k j : κ) :
    AList.lookup j (t.erase k) = if j = k then none else t.lookup j := by
  split_ifs with h
  · subst h
    exact AList.lookup_erase j t
  · exact AList.lookup_erase_ne h

theorem mem_keys_iff (t : Table κ υ) (k : κ) :
    k ∈ t.keys ↔ ∃ v, t.lookup k = some v := by
  rw [← AList.mem_keys, ← AList.lookup_isSome, Option.isSome_iff_exists]

theorem keys_eq_nil_iff (t : Table κ υ) : t.keys = [] ↔ ∀ k, t.lookup k = none := by
  rw [List.eq_nil_iff_forall_not_mem]
  refine forall_congr' fun k => ?_
  rw [AList.lookup_eq_none, AList.mem_keys]

/-- Rewrite the value under `k`, if there is one. -/
def modify (t : Table κ υ) (k : κ) (f : υ → υ) : Table κ υ :=
  match t.lookup k with
  | some v => t.insert k (f v)
  | none => t

@[simp] theorem lookup_modify (t : Table κ υ) (k j : κ) (f : υ → υ) :
    AList.lookup j (t.modify k f) =
      if j = k then (t.lookup k).map f else t.lookup j := by
  unfold modify
  cases h : t.lookup k with
  | some v => simp
  | none =>
    split_ifs with hj
    · rw [hj, h]
      rfl
    · rfl

/-- Insert `new` under a free key, rewrite the value under a taken one. -/
def upsert (t : Table κ υ) (k : κ) (f : υ → υ) (new : υ) : Table κ υ :=
  t.insert k (((t.lookup k).map f).getD new)

@[simp] theorem lookup_upsert (t : Table κ υ) (k j : κ) (f : υ → υ) (new : υ) :
    AList.lookup j (t.upsert k f new) =
      if j = k then some (((t.lookup k).map f).getD new) else t.lookup j := by
  simp [upsert]

/-- The entries that satisfy `p`, as pairs. -/
def select (t : Table κ υ) (p : κ → υ → Bool) : List (κ × υ) :=
  (t.entries.map fun e => (e.1, e.2)).filter fun e => p e.1 e.2

theorem mem_select (t : Table κ υ) (p : κ → υ → Bool) (k : κ) (v : υ) :
    (k, v) ∈ t.select p ↔ t.lookup k = some v ∧ p k v = true := by
  simp only [select, List.mem_filter, List.mem_map]
  refine and_congr ?_ Iff.rfl
  rw [show (t.lookup k = some v) ↔ v ∈ t.lookup k from Iff.rfl, AList.mem_lookup_iff]
  constructor
  · rintro ⟨⟨j, w⟩, hm, he⟩
    obtain ⟨rfl, rfl⟩ := Prod.mk.inj he
    exact hm
  · exact fun hm => ⟨⟨k, v⟩, hm, rfl⟩

omit [DecidableEq κ] in
theorem select_keys_nodup (t : Table κ υ) (p : κ → υ → Bool) :
    ((t.select p).map Prod.fst).Nodup := by
  have h : ((t.entries.map fun e => (e.1, e.2)).map Prod.fst).Nodup := by
    rw [List.map_map]
    exact t.keys_nodup
  exact h.sublist (List.Sublist.map _ List.filter_sublist)

section All
variable {t : Table κ υ} {P Q : κ → υ → Prop} {k : κ} {v : υ} {f : υ → υ}

/-- Every entry satisfies `P`. -/
def All (t : Table κ υ) (P : κ → υ → Prop) : Prop := ∀ k v, t.lookup k = some v → P k v

theorem All.empty : All (∅ : Table κ υ) P := by
  intro k v h
  simp at h

theorem All.mono (h : t.All P) (hpq : ∀ k v, t.lookup k = some v → P k v → Q k v) : t.All Q :=
  fun k v hv => hpq k v hv (h k v hv)

theorem All.insert (h : t.All P) (hv : P k v) : All (t.insert k v) P := by
  intro j w hw
  rw [lookup_insert_eq] at hw
  split_ifs at hw with hj
  · rw [hj, ← Option.some.inj hw]
    exact hv
  · exact h j w hw

/-- The entries left after an erasure, and what the erased key was not. -/
theorem All.erase (h : ∀ j v, j ≠ k → t.lookup j = some v → P j v) : All (t.erase k) P := by
  intro j v hv
  rw [lookup_erase_eq] at hv
  split_ifs at hv with hj
  exact h j v hj hv

theorem All.modify (h : ∀ j v, j ≠ k → t.lookup j = some v → P j v)
    (hk : ∀ v, t.lookup k = some v → P k (f v)) : All (t.modify k f) P := by
  intro j v hv
  rw [lookup_modify] at hv
  split_ifs at hv with hj
  · obtain ⟨w, hw, rfl⟩ := Option.map_eq_some_iff.mp hv
    rw [hj]
    exact hk w hw
  · exact h j v hj hv

end All

section Size
variable {t : Table κ υ} {k : κ} {v : υ}

/-- The number of keys. -/
def size (t : Table κ υ) : ℕ := t.keys.length

omit [DecidableEq κ] in
@[simp] theorem size_empty : (∅ : Table κ υ).size = 0 := rfl

theorem size_insert_new (h : t.lookup k = none) (v : υ) : size (t.insert k v) = t.size + 1 := by
  have hk : k ∉ t.keys := AList.lookup_eq_none.mp h
  simp [size, AList.keys_insert, List.erase_of_not_mem hk]

theorem size_insert_old {w : υ} (h : t.lookup k = some w) (v : υ) : size (t.insert k v) = t.size := by
  have hk : k ∈ t.keys := (mem_keys_iff t k).mpr ⟨w, h⟩
  have hpos : 0 < t.keys.length := List.length_pos_of_mem hk
  simp only [size, AList.keys_insert, List.length_cons, List.length_erase_of_mem hk]
  omega

theorem size_erase {w : υ} (h : t.lookup k = some w) : size (t.erase k) + 1 = t.size := by
  have hk : k ∈ t.keys := (mem_keys_iff t k).mpr ⟨w, h⟩
  have hpos : 0 < t.keys.length := List.length_pos_of_mem hk
  simp only [size, AList.keys_erase, List.length_erase_of_mem hk]
  omega

theorem size_erase_le (t : Table κ υ) (k : κ) : size (t.erase k) ≤ t.size := by
  simpa [size, AList.keys_erase] using List.length_erase_le

@[simp] theorem size_modify (t : Table κ υ) (k : κ) (f : υ → υ) : (t.modify k f).size = t.size := by
  unfold modify
  cases h : t.lookup k with
  | none => rfl
  | some v => exact size_insert_old h _

/-- The entries of `t` that `f` keeps, with the values it gives them. -/
def retained (t : Table κ υ) (f : κ → υ → Option υ) : List (Sigma fun _ : κ => υ) :=
  t.entries.filterMap fun e => (f e.1 e.2).map (Sigma.mk e.1)

omit [DecidableEq κ] in
theorem retained_sublist (t : Table κ υ) (f : κ → υ → Option υ) :
    List.Sublist ((t.retained f).map Sigma.fst) t.keys := by
  unfold retained AList.keys List.keys
  induction t.entries with
  | nil => simp
  | cons e l ih =>
    cases h : f e.1 e.2 with
    | none => simpa [List.filterMap_cons, h] using ih.cons e.1
    | some v => simpa [List.filterMap_cons, h] using ih

omit [DecidableEq κ] in
theorem retained_nodupKeys (t : Table κ υ) (f : κ → υ → Option υ) :
    (t.retained f).NodupKeys := t.keys_nodup.sublist (t.retained_sublist f)

/-- Drop or rewrite every entry. -/
def retain (t : Table κ υ) (f : κ → υ → Option υ) : Table κ υ :=
  ⟨t.retained f, t.retained_nodupKeys f⟩

omit [DecidableEq κ] in
theorem size_retain_le (t : Table κ υ) (f : κ → υ → Option υ) : (t.retain f).size ≤ t.size :=
  (t.retained_sublist f).length_le

omit [DecidableEq κ] in
theorem retain_retain (t : Table κ υ) (f g : κ → υ → Option υ) :
    (t.retain f).retain g = t.retain fun k v => (f k v).bind (g k) := by
  apply AList.ext
  change (t.retained f).filterMap (fun e => (g e.1 e.2).map (Sigma.mk e.1)) =
    t.retained fun k v => (f k v).bind (g k)
  unfold retained
  rw [List.filterMap_filterMap]
  congr 1
  funext e
  cases h : f e.1 e.2 <;> simp [h]

omit [DecidableEq κ] in
theorem retain_all (t : Table κ υ) : (t.retain fun _ v => some v) = t := by
  apply AList.ext
  change t.retained (fun _ v => some v) = t.entries
  simp [retained]

theorem lookup_retain (t : Table κ υ) (f : κ → υ → Option υ) (k : κ) :
    (t.retain f).lookup k = (t.lookup k).bind (f k) := by
  have hmem : ∀ v, v ∈ (t.retain f).lookup k ↔ v ∈ (t.lookup k).bind (f k) := by
    intro v
    rw [AList.mem_lookup_iff, Option.mem_def, Option.bind_eq_some_iff]
    show Sigma.mk k v ∈ t.retained f ↔ _
    simp only [retained, List.mem_filterMap, Option.map_eq_some_iff]
    constructor
    · rintro ⟨⟨j, w⟩, hw, u, hu, he⟩
      obtain ⟨rfl, rfl⟩ := Sigma.mk.inj_iff.mp he
      exact ⟨w, AList.mem_lookup_iff.mpr hw, hu⟩
    · rintro ⟨w, hw, hv⟩
      exact ⟨⟨k, w⟩, AList.mem_lookup_iff.mp hw, v, hv, rfl⟩
  exact Option.ext hmem

end Size

end Table
end Foundation
