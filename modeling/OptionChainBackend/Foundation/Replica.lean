import OptionChainBackend.Foundation.Table

/-!
Replicas: a table that keeps the non-zero values of a map and is told the new value of a key, again
and again, with zero for a key that left.
-/
namespace Foundation
namespace Table
variable {κ υ : Type} [DecidableEq κ] [Zero υ] [DecidableEq υ] {t : Table κ υ} {f f' : κ → υ}

/-- The table holds the non-zero values of the map, and nothing else. -/
def Replicates (t : Table κ υ) (f : κ → υ) : Prop :=
  ∀ k v, t.lookup k = some v ↔ f k = v ∧ v ≠ 0

/-- One notice: the value of `k` is `v` now. -/
def put (t : Table κ υ) (k : κ) (v : υ) : Table κ υ := if v = 0 then t.erase k else t.insert k v

/-- The notices, one after the other. -/
def putAll (t : Table κ υ) (es : List (κ × υ)) : Table κ υ := es.foldl (fun t e => t.put e.1 e.2) t

@[simp] theorem putAll_nil (t : Table κ υ) : t.putAll [] = t := rfl

@[simp] theorem putAll_cons (t : Table κ υ) (e : κ × υ) (es : List (κ × υ)) :
    t.putAll (e :: es) = (t.put e.1 e.2).putAll es := rfl

theorem putAll_append (t : Table κ υ) (es es' : List (κ × υ)) :
    t.putAll (es ++ es') = (t.putAll es).putAll es' := List.foldl_append

namespace Replicates

omit [DecidableEq υ] in
theorem empty : Replicates (∅ : Table κ υ) fun _ => 0 := by
  intro k v
  simp only [AList.lookup_empty]
  constructor
  · nofun
  · rintro ⟨hv, hne⟩
    exact absurd hv.symm hne

theorem put (h : t.Replicates f) (k : κ) (v : υ) :
    (t.put k v).Replicates (Function.update f k v) := by
  intro j w
  unfold Table.put
  by_cases hj : j = k
  · subst hj
    rw [Function.update_self]
    split_ifs with hv
    · simp only [lookup_erase_eq, if_true]
      constructor
      · nofun
      · rintro ⟨rfl, hne⟩
        exact absurd hv hne
    · simp only [lookup_insert_eq, if_true, Option.some.injEq]
      constructor
      · rintro rfl
        exact ⟨rfl, hv⟩
      · exact And.left
  · rw [Function.update_of_ne hj]
    split_ifs
    · simpa only [lookup_erase_eq, if_neg hj] using h j w
    · simpa only [lookup_insert_eq, if_neg hj] using h j w

/-- A replica that is told the new value of every key whose value changed is one of the new map;
it may be told more. -/
theorem told {es : List (κ × υ)} (h : t.Replicates f) (hnew : ∀ e ∈ es, e.2 = f' e.1)
    (hold : ∀ k, k ∉ es.map Prod.fst → f' k = f k) : (t.putAll es).Replicates f' := by
  induction es generalizing t f with
  | nil =>
    have hf : f' = f := funext fun k => hold k List.not_mem_nil
    rw [hf]
    exact h
  | cons e es ih =>
    apply ih (h.put e.1 e.2)
    · exact fun e' he' => hnew e' (List.mem_cons_of_mem e he')
    · intro k hk
      by_cases hke : k = e.1
      · rw [hke, Function.update_self]
        exact (hnew e List.mem_cons_self).symm
      · rw [Function.update_of_ne hke]
        apply hold
        rw [List.map_cons, List.mem_cons, not_or]
        exact ⟨hke, hk⟩

end Replicates
end Table
end Foundation
