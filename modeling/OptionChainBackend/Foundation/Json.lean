import Mathlib.Data.Int.Notation
import Mathlib.Data.List.Basic
import Mathlib.Data.List.Nodup
import Mathlib.Algebra.Order.Ring.Int

/-!
JSON values, and how records are written as objects and read from them by the names of their fields.
-/
namespace Foundation

/-- A JSON value; integers and floating-point numbers are told apart. -/
inductive Json (F : Type) where
  | null
  | bool (b : Bool)
  | int (n : ℤ)
  | float (x : F)
  | str (s : String)
  | arr (items : List (Json F))
  | obj (fields : List (String × Json F))

namespace Json
variable {F α β : Type} {j : Json F} {name : String} {fields : List (String × Option (Json F))}

/-- An object without the fields that have no value. -/
def record (fields : List (String × Option (Json F))) : Json F :=
  .obj (fields.filterMap fun f => f.2.map fun v => (f.1, v))

/-- The value under a name, if there is one. An object that repeats the name is not read. -/
def field (name : String) : Json F → Option (Option (Json F))
  | .obj fields =>
    match fields.filter fun f => f.1 = name with
    | [] => some none
    | [f] => some (some f.2)
    | _ => none
  | _ => none

/-- A field that must be there. -/
def required (read : Json F → Option α) (name : String) (j : Json F) : Option α := do
  let some v ← field name j | none
  read v

/-- A field that may be missing, or `null`. -/
def optional (read : Json F → Option α) (name : String) (j : Json F) : Option (Option α) := do
  match ← field name j with
  | none | some .null => some none
  | some v => (read v).map some

/-- A field with a default; `null` is no value for it. -/
def defaulted (read : Json F → Option α) (value : α) (name : String) (j : Json F) : Option α := do
  match ← field name j with
  | none => some value
  | some v => read v

def asString : Json F → Option String
  | .str s => some s
  | _ => none

def asBool : Json F → Option Bool
  | .bool b => some b
  | _ => none

/-- An unsigned number of `w` bits. -/
def asUnsigned (w : ℕ) : Json F → Option ℕ
  | .int n => if 0 ≤ n ∧ n < 2 ^ w then some n.toNat else none
  | _ => none

/-- A signed number of `w` bits. -/
def asSigned (w : ℕ) : Json F → Option ℤ
  | .int n => if -2 ^ (w - 1) ≤ n ∧ n < 2 ^ (w - 1) then some n else none
  | _ => none

def asList (read : Json F → Option α) : Json F → Option (List α)
  | .arr items => items.mapM read
  | _ => none

section Fields

theorem filter_record (hn : (fields.map Prod.fst).Nodup) (name : String) :
    ((fields.filterMap fun f => f.2.map fun v => (f.1, v)).filter fun f => f.1 = name) =
      ((fields.lookup name).join.map fun v => (name, v)).toList := by
  induction fields with
  | nil => rfl
  | cons f fields ih =>
    obtain ⟨hnew, hrest⟩ := List.nodup_cons.mp hn
    have hih := ih hrest
    obtain ⟨n, v⟩ := f
    by_cases hname : name = n
    · subst hname
      have hnone : fields.lookup name = none :=
        List.lookup_eq_none_iff.mpr fun p hp => by
          have hmem : p.1 ∈ fields.map Prod.fst := List.mem_map_of_mem hp
          apply bne_iff_ne.mpr
          intro heq
          exact hnew (heq ▸ hmem)
      rw [hnone] at hih
      cases v with
      | none => simpa using hih
      | some v => simpa using hih
    · have hlookup : ((n, v) :: fields).lookup name = fields.lookup name := by
        rw [List.lookup_cons, beq_false_of_ne hname]
      rw [hlookup, ← hih]
      cases v with
      | none => rfl
      | some v => simp [Ne.symm hname]

/-- What is read back under a name is what was written there. -/
theorem field_record (hn : (fields.map Prod.fst).Nodup) (name : String) :
    field name (record fields) = some (fields.lookup name).join := by
  simp only [field, record, filter_record hn]
  cases (fields.lookup name).join <;> rfl

theorem required_record (hn : (fields.map Prod.fst).Nodup) {v : Json F} (read : Json F → Option α)
    (h : fields.lookup name = some (some v)) : required read name (record fields) = read v := by
  simp [required, field_record hn, h]

/-- An optional field is written as long as it has a value, and never as `null`. -/
theorem optional_record (hn : (fields.map Prod.fst).Nodup) {read : Json F → Option α}
    {write : β → Json F} {x : Option β} {view : β → α} (h : fields.lookup name = some (x.map write))
    (hread : ∀ b ∈ x, read (write b) = some (view b)) (hnull : ∀ b ∈ x, write b ≠ .null) :
    optional read name (record fields) = some (x.map view) := by
  cases x with
  | none => simp [optional, field_record hn, h]
  | some b =>
    have hb := hread b rfl
    have hv := hnull b rfl
    simp only [optional, field_record hn, h, Option.map_some, Option.join_some,
      Option.bind_eq_bind, Option.bind_some]
    rw [hb]
    rfl

theorem optional_absent (hn : (fields.map Prod.fst).Nodup) (read : Json F → Option α)
    (h : fields.lookup name = none) : optional read name (record fields) = some none := by
  simp [optional, field_record hn, h]

theorem defaulted_record (hn : (fields.map Prod.fst).Nodup) {v : Json F} (read : Json F → Option α)
    (value : α) (h : fields.lookup name = some (some v)) :
    defaulted read value name (record fields) = read v := by
  simp [defaulted, field_record hn, h]

end Fields

@[simp] theorem asUnsigned_int {w n : ℕ} (h : n < 2 ^ w) :
    asUnsigned w (.int n : Json F) = some n := by
  have hlt : (n : ℤ) < 2 ^ w := by exact_mod_cast h
  simp [asUnsigned, hlt]

theorem mapM_map {γ : Type} {f : γ → Option α} {g : β → γ} {view : β → α} {l : List β}
    (h : ∀ b ∈ l, f (g b) = some (view b)) : (l.map g).mapM f = some (l.map view) := by
  induction l with
  | nil => rfl
  | cons b l ih =>
    have hb := h b List.mem_cons_self
    have hl := ih fun b' hb' => h b' (List.mem_cons_of_mem b hb')
    simp [hb, hl]

theorem asList_map {read : Json F → Option α} {write : β → Json F} {view : β → α} {l : List β}
    (h : ∀ b ∈ l, read (write b) = some (view b)) :
    asList read (.arr (l.map write)) = some (l.map view) :=
  mapM_map h

end Json
end Foundation
