import Mathlib.Tactic.Ring
import Mathlib.Data.List.Basic

/-! Decimal numerals of a given width: each number has exactly one. -/
namespace Foundation
namespace Decimal

/-- The number a list of decimal digits stands for. -/
def value (cs : List Char) : ℕ := Nat.ofDigitChars 10 cs 0

/-- The digits of `n`, with zeros in front up to width `w`. -/
def padded (w n : ℕ) : List Char :=
  List.replicate (w - (Nat.toDigits 10 n).length) '0' ++ Nat.toDigits 10 n

variable {cs ds : List Char} {c : Char} {w n m : ℕ}

def IsDigits (cs : List Char) : Prop := ∀ c ∈ cs, c.isDigit = true

theorem IsDigits.append (hc : IsDigits cs) (hd : IsDigits ds) : IsDigits (cs ++ ds) := by
  intro c hm
  rcases List.mem_append.mp hm with hm | hm
  · exact hc c hm
  · exact hd c hm

theorem isDigit_bounds (h : c.isDigit = true) : 48 ≤ c.toNat ∧ c.toNat ≤ 57 := by
  simpa [Char.isDigit, UInt32.le_iff_toNat_le] using h

theorem value_cons : value (c :: cs) = 10 ^ cs.length * (c.toNat - 48) + value cs := by
  unfold value
  rw [Nat.ofDigitChars_cons, Nat.ofDigitChars_eq_ofDigitChars_zero]
  simp

theorem value_append : value (cs ++ ds) = 10 ^ ds.length * value cs + value ds := by
  unfold value
  rw [Nat.ofDigitChars_append, Nat.ofDigitChars_eq_ofDigitChars_zero]

theorem value_lt (h : IsDigits cs) : value cs < 10 ^ cs.length := by
  induction cs with
  | nil => decide
  | cons c cs ih =>
    have hc := isDigit_bounds (h c List.mem_cons_self)
    have hcs := ih fun d hd => h d (List.mem_cons_of_mem c hd)
    have hd : 10 ^ cs.length * (c.toNat - 48) ≤ 10 ^ cs.length * 9 :=
      Nat.mul_le_mul_left _ (by omega)
    rw [value_cons, List.length_cons, pow_succ]
    omega

/-- Two numerals of one width that stand for the same number are the same. -/
theorem eq_of_value_eq (hc : IsDigits cs) (hd : IsDigits ds) (hlen : cs.length = ds.length)
    (hv : value cs = value ds) : cs = ds := by
  induction cs generalizing ds with
  | nil => exact (List.length_eq_zero_iff.mp hlen.symm).symm
  | cons c cs ih =>
    cases ds with
    | nil => cases hlen
    | cons d ds =>
      have hlen' : cs.length = ds.length := Nat.succ.inj hlen
      have hcs : IsDigits cs := fun b hb => hc b (List.mem_cons_of_mem c hb)
      have hds : IsDigits ds := fun b hb => hd b (List.mem_cons_of_mem d hb)
      have hc' := isDigit_bounds (hc c List.mem_cons_self)
      have hd' := isDigit_bounds (hd d List.mem_cons_self)
      rw [value_cons, value_cons, hlen'] at hv
      have hlt := value_lt hcs
      have hlt' := value_lt hds
      rw [hlen'] at hlt
      -- quotient and remainder by the power of ten
      have hquot : c.toNat - 48 = d.toNat - 48 := by
        have h := congrArg (· / 10 ^ ds.length) hv
        simpa [Nat.mul_add_div (Nat.pow_pos (by decide : 0 < 10)), Nat.div_eq_of_lt hlt,
          Nat.div_eq_of_lt hlt'] using h
      have hrem : value cs = value ds := by
        rw [hquot] at hv
        omega
      have hchar : c = d := Char.toNat_inj.mp (by omega)
      rw [hchar, ih hcs hds hlen' hrem]

@[simp] theorem value_padded : value (padded w n) = n := by
  simp [padded, value, Nat.ofDigitChars_append]

theorem padded_isDigits : IsDigits (padded w n) := by
  apply IsDigits.append
  · intro c hc
    rw [List.eq_of_mem_replicate hc]
    decide
  · intro c hc
    exact Nat.isDigit_of_mem_toDigits (by decide) (by decide) hc

theorem le_length_padded : w ≤ (padded w n).length := by
  simp only [padded, List.length_append, List.length_replicate]
  omega

theorem length_padded (hw : 0 < w) (hn : n < 10 ^ w) : (padded w n).length = w := by
  have hle : (Nat.toDigits 10 n).length ≤ w :=
    (Nat.length_toDigits_le_iff (by decide) hw).mpr hn
  simp only [padded, List.length_append, List.length_replicate]
  omega

/-- A numeral is the padding of its number to its own width. -/
theorem padded_value (hcs : IsDigits cs) (hne : cs ≠ []) : padded cs.length (value cs) = cs := by
  apply eq_of_value_eq padded_isDigits hcs
  · exact length_padded (List.length_pos_of_ne_nil hne) (value_lt hcs)
  · exact value_padded

theorem padded_inj : padded w n = padded w m ↔ n = m := by
  constructor
  · intro h
    rw [← value_padded (w := w) (n := n), h, value_padded]
  · rintro rfl
    rfl

end Decimal
end Foundation
