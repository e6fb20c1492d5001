import Mathlib.Tactic.IntervalCases
import OptionChainBackend.Foundation.Decimal
import OptionChainBackend.Upstream.Calendar

/-!
The calendar arithmetic is a bijection between days and dates, and the `YYYYMMDD` form names
the day it was made from.
-/
namespace OptionChainBackend
namespace Calendar
open Foundation

/-- Day `doy` of year `yoe` of an era, counted from March; only a leap year has day 365. -/
def dayOfEra (yoe doy : ℤ) : ℤ := yoe * 365 + yoe / 4 - yoe / 100 + doy

/-- A year of an era and a day of it. -/
structure YearDay (yoe doy : ℤ) : Prop where
  year : 0 ≤ yoe ∧ yoe < 400
  day : 0 ≤ doy ∧ doy ≤ 365
  leap : doy = 365 → yoe % 4 = 3 ∧ (yoe % 100 < 96 ∨ 300 ≤ yoe)

theorem YearDay.bounds {yoe doy : ℤ} (h : YearDay yoe doy) :
    0 ≤ dayOfEra yoe doy ∧ dayOfEra yoe doy < 146097 := by
  obtain ⟨hy, hd, hl⟩ := h
  unfold dayOfEra
  omega

/-- The year is read off the day of the era by correcting for the leap days passed. -/
theorem YearDay.year_eq {yoe doy : ℤ} (h : YearDay yoe doy) :
    (dayOfEra yoe doy - dayOfEra yoe doy / 1460 + dayOfEra yoe doy / 36524 -
      dayOfEra yoe doy / 146096) / 365 = yoe := by
  obtain ⟨⟨hy0, hy1⟩, ⟨hd0, hd1⟩, hl⟩ := h
  -- centuries, leap cycles and years
  obtain ⟨c, q, r, hc0, hc1, hq0, hq1, hr0, hr1, rfl⟩ : ∃ c q r : ℤ, 0 ≤ c ∧ c < 4 ∧ 0 ≤ q ∧
      q < 25 ∧ 0 ≤ r ∧ r < 4 ∧ yoe = 100 * c + 4 * q + r :=
    ⟨yoe / 100, yoe % 100 / 4, yoe % 4, by omega, by omega, by omega, by omega, by omega, by omega,
      by omega⟩
  have hdoe : dayOfEra (100 * c + 4 * q + r) doy = c * 36524 + q * 1461 + r * 365 + doy := by
    unfold dayOfEra
    omega
  have hleap : doy = 365 → r = 3 ∧ (q < 24 ∨ c = 3) := by
    intro hd
    have := hl hd
    omega
  rw [hdoe]
  generalize hD : c * 36524 + q * 1461 + r * 365 + doy = doe
  have hera : doe / 146096 = if c = 3 ∧ q = 24 ∧ r = 3 ∧ doy = 365 then 1 else 0 := by
    split_ifs <;> omega
  have hcentury : doe / 36524 = if c = 3 ∧ q = 24 ∧ r = 3 ∧ doy = 365 then 4 else c := by
    split_ifs <;> omega
  have hcycle : doe / 1460 = 25 * c + q + if 1460 * (25 * c + q + 1) ≤ doe then 1 else 0 := by
    split_ifs <;> omega
  rw [hera, hcentury, hcycle]
  by_cases hlast : c = 3 ∧ q = 24 ∧ r = 3 ∧ doy = 365
  · rw [if_pos hlast, if_pos hlast]
    split_ifs <;> omega
  · rw [if_neg hlast, if_neg hlast]
    -- a leap day is counted against the cycle it ends
    have hcounted : 0 ≤ doy - (if 1460 * (25 * c + q + 1) ≤ doe then 1 else 0) ∧
        doy - (if 1460 * (25 * c + q + 1) ≤ doe then 1 else 0) < 365 := by
      clear hera hcentury hcycle
      split_ifs <;> omega
    clear hera hcentury hcycle hlast hleap hl
    omega

/-- Every day of an era is a day of one of its years. -/
theorem exists_yearDay {doe : ℤ} (h0 : 0 ≤ doe) (h1 : doe < 146097) :
    ∃ yoe doy, YearDay yoe doy ∧ dayOfEra yoe doy = doe := by
  have hc : ∃ c, c = if doe = 146096 then 3 else doe / 36524 := ⟨_, rfl⟩
  obtain ⟨c, hc⟩ := hc
  obtain ⟨d, hd⟩ : ∃ d, d = doe - c * 36524 := ⟨_, rfl⟩
  obtain ⟨q, hq⟩ : ∃ q, q = d / 1461 := ⟨_, rfl⟩
  obtain ⟨e, he⟩ : ∃ e, e = d - q * 1461 := ⟨_, rfl⟩
  obtain ⟨r, hr⟩ : ∃ r, r = if e = 1460 then 3 else e / 365 := ⟨_, rfl⟩
  have hc' : 0 ≤ c ∧ c < 4 ∧ 0 ≤ d ∧ (d < 36524 ∨ c = 3 ∧ d = 36524) := by
    split_ifs at hc <;> omega
  have hq' : 0 ≤ q ∧ q < 25 ∧ 0 ≤ e ∧ e ≤ 1460 ∧ (q = 24 → c = 3 ∨ e < 1460) := by omega
  have hr' : 0 ≤ r ∧ r < 4 ∧ 0 ≤ e - r * 365 ∧ e - r * 365 ≤ 365 ∧
      (e - r * 365 = 365 → r = 3 ∧ e = 1460) := by
    split_ifs at hr <;> omega
  refine ⟨100 * c + 4 * q + r, e - r * 365, ⟨by omega, by omega, ?_⟩, ?_⟩
  · intro hl
    omega
  · have hfour : (100 * c + 4 * q + r) / 4 = 25 * c + q := by omega
    have hcent : (100 * c + 4 * q + r) / 100 = c := by omega
    rw [dayOfEra, hfour, hcent]
    omega

theorem civilOfDay_bounds (z : ℤ) : (1 ≤ (civilOfDay z).2.1 ∧ (civilOfDay z).2.1 ≤ 12) ∧
    1 ≤ (civilOfDay z).2.2 ∧ (civilOfDay z).2.2 ≤ 31 := by
  unfold civilOfDay
  dsimp only
  refine ⟨⟨?_, ?_⟩, ?_, ?_⟩ <;> try split_ifs
  all_goals omega

/-- The date of a day, by its era, year of the era and day of the year. -/
theorem civilOfDay_eq {z era yoe doy : ℤ} (h : YearDay yoe doy)
    (hz : z + 719468 = era * 146097 + dayOfEra yoe doy) :
    civilOfDay z =
      let mp := (5 * doy + 2) / 153
      let month := (if mp < 10 then mp + 3 else mp - 9).toNat
      (yoe + era * 400 + if month ≤ 2 then 1 else 0, month, (doy - (153 * mp + 2) / 5 + 1).toNat) := by
  have hb := h.bounds
  have hera : (z + 719468) / 146097 = era := by omega
  have hdoe : z + 719468 - era * 146097 = dayOfEra yoe doy := by omega
  have hdoy : dayOfEra yoe doy - (365 * yoe + yoe / 4 - yoe / 100) = doy := by
    unfold dayOfEra
    omega
  simp only [civilOfDay, hera, hdoe, h.year_eq, hdoy]

/-- The day of a date, by the same parts; months count from March. -/
theorem dayOfCivil_eq (era yoe mp year : ℤ) (month day : ℕ) (hy : 0 ≤ yoe ∧ yoe < 400)
    (hyear : (if month ≤ 2 then year - 1 else year) = yoe + era * 400)
    (hmonth : (if month > 2 then (month : ℤ) - 3 else month + 9) = mp) :
    dayOfCivil year month day + 719468 =
      era * 146097 + dayOfEra yoe ((153 * mp + 2) / 5 + day - 1) := by
  have hera : (yoe + era * 400) / 400 = era := by omega
  have hyoe : yoe + era * 400 - era * 400 = yoe := by omega
  have hmp : (((if month > 2 then month - 3 else month + 9 : ℕ)) : ℤ) = mp := by
    split_ifs at hmonth ⊢ <;> omega
  unfold dayOfCivil dayOfEra
  simp only [hyear, hera, hyoe, hmp]
  omega

theorem daysInMonth_le (year : ℤ) {mp : ℤ} {month : ℕ} (hm : 1 ≤ month ∧ month ≤ 12)
    (hmp : (if month > 2 then (month : ℤ) - 3 else month + 9) = mp) :
    (daysInMonth year month : ℤ) ≤ (153 * (mp + 1) + 2) / 5 - (153 * mp + 2) / 5 ∧
    (mp = 11 → month = 2) := by
  obtain ⟨h0, h1⟩ := hm
  subst hmp
  constructor
  · interval_cases month <;> simp [daysInMonth]
    split_ifs <;> decide
  · intro h
    split_ifs at h <;> omega

/-- Every date that exists is the date of its day. -/
theorem civilOfDay_dayOfCivil {year : ℤ} {month day : ℕ} (hm : 1 ≤ month ∧ month ≤ 12)
    (hd : 1 ≤ day ∧ day ≤ daysInMonth year month) :
    civilOfDay (dayOfCivil year month day) = (year, month, day) := by
  obtain ⟨y, hy⟩ : ∃ y, (if month ≤ 2 then year - 1 else year) = y := ⟨_, rfl⟩
  obtain ⟨mp, hmp⟩ : ∃ mp, (if month > 2 then (month : ℤ) - 3 else month + 9) = mp := ⟨_, rfl⟩
  have hz := dayOfCivil_eq (y / 400) (y % 400) mp year month day (by omega) (by omega) hmp
  obtain ⟨hlen, hfeb⟩ := daysInMonth_le year hm hmp
  have hrange : 0 ≤ mp ∧ mp < 12 := by
    split_ifs at hmp <;> omega
  have hmonth : (5 * ((153 * mp + 2) / 5 + (day : ℤ) - 1) + 2) / 153 = mp := by omega
  have hshort : mp = 11 → day ≤ 29 := by
    intro h11
    obtain rfl := hfeb h11
    simp only [daysInMonth] at hd
    split_ifs at hd <;> omega
  have hleap : mp = 11 → (day : ℤ) = 29 →
      y % 400 % 4 = 3 ∧ (y % 400 % 100 < 96 ∨ 300 ≤ y % 400) := by
    intro h11 h29
    obtain rfl := hfeb h11
    have hl : isLeap year = true := by
      by_contra hne
      simp only [daysInMonth, hne] at hd
      simp at hd
      omega
    simp only [isLeap, Bool.and_eq_true, Bool.or_eq_true, decide_eq_true_eq] at hl
    simp at hy
    omega
  have hyd : YearDay (y % 400) ((153 * mp + 2) / 5 + day - 1) := by
    refine ⟨by omega, by omega, ?_⟩
    intro hday
    apply hleap
    · omega
    · omega
  rw [civilOfDay_eq hyd hz]
  dsimp only
  rw [hmonth]
  have hm' : (if mp < 10 then mp + 3 else mp - 9).toNat = month := by
    split_ifs at hmp ⊢ <;> omega
  rw [hm']
  refine Prod.ext ?_ (Prod.ext rfl ?_)
  · dsimp only
    split_ifs at hy ⊢ <;> omega
  · dsimp only
    omega

/-- Every day is the day of its date. -/
theorem dayOfCivil_civilOfDay (z : ℤ) :
    dayOfCivil (civilOfDay z).1 (civilOfDay z).2.1 (civilOfDay z).2.2 = z := by
  have h0 : 0 ≤ (z + 719468) % 146097 := by omega
  have h1 : (z + 719468) % 146097 < 146097 := by omega
  obtain ⟨yoe, doy, h, hdoe⟩ := exists_yearDay h0 h1
  have hz : z + 719468 = (z + 719468) / 146097 * 146097 + dayOfEra yoe doy := by omega
  rw [civilOfDay_eq h hz]
  obtain ⟨mp, hmp⟩ : ∃ mp, mp = (5 * doy + 2) / 153 := ⟨_, rfl⟩
  have hd := h.day
  dsimp only
  rw [← hmp]
  have hback := dayOfCivil_eq ((z + 719468) / 146097) yoe mp
    (yoe + (z + 719468) / 146097 * 400 +
      if (if mp < 10 then mp + 3 else mp - 9).toNat ≤ 2 then 1 else 0)
    (if mp < 10 then mp + 3 else mp - 9).toNat (doy - (153 * mp + 2) / 5 + 1).toNat h.year
    (by split_ifs <;> omega) (by split_ifs <;> omega)
  have hdoy : (153 * mp + 2) / 5 + ((doy - (153 * mp + 2) / 5 + 1).toNat : ℤ) - 1 = doy := by omega
  rw [hdoy] at hback
  omega

section Text
open Decimal

theorem toList_padLeft (w n : ℕ) : (padLeft w n).toList = padded w n := by
  have hlen : n.repr.length = (Nat.toDigits 10 n).length := by
    rw [← Nat.toList_repr, String.length_toList]
  simp [padLeft, padded, hlen]

/-- The year part of `%Y%m%d`. -/
def yearText (year : ℤ) : List Char :=
  (if year < 0 then ['-'] else if 9999 < year then ['+'] else []) ++ padded 4 year.natAbs

theorem toList_formatYmd (t : DateTime) : (formatYmd t).toList =
    yearText (civilOfDay t.day).1 ++
      (padded 2 (civilOfDay t.day).2.1 ++ padded 2 (civilOfDay t.day).2.2) := by
  simp only [formatYmd, yearText]
  split_ifs <;> simp [toList_padLeft]

theorem length_monthDay (z : ℤ) :
    (padded 2 (civilOfDay z).2.1).length = 2 ∧ (padded 2 (civilOfDay z).2.2).length = 2 := by
  have hb := civilOfDay_bounds z
  constructor
  · apply length_padded <;> omega
  · apply length_padded <;> omega

theorem not_isDigit_append {c : Char} {cs ds es : List Char} (hc : c.isDigit = false)
    (hd : IsDigits ds) (hne : ds ≠ []) : c :: cs ≠ ds ++ es := by
  intro h
  cases ds with
  | nil => exact hne rfl
  | cons d ds =>
    have hcd : c = d := (List.cons.inj h).1
    rw [hcd, hd d List.mem_cons_self] at hc
    cases hc

theorem padded_ne_nil {w n : ℕ} (hw : 0 < w) : padded w n ≠ [] := by
  apply List.ne_nil_of_length_pos
  exact hw.trans_le le_length_padded

theorem yearText_inj {y y' : ℤ} : yearText y = yearText y' ↔ y = y' := by
  constructor
  · intro h
    have hdigits : ∀ n, IsDigits (padded 4 n) := fun _ => padded_isDigits
    have hne : ∀ n, padded 4 n ≠ [] := fun _ => padded_ne_nil (by decide)
    have hsign : ∀ {c : Char} {m n : ℕ}, c.isDigit = false → c :: padded 4 m ≠ padded 4 n := by
      intro c m n hc he
      rw [← List.append_nil (padded 4 n)] at he
      exact not_isDigit_append hc (hdigits n) (hne n) he
    unfold yearText at h
    split_ifs at h
    all_goals simp only [List.cons_append, List.nil_append, List.cons.injEq, true_and] at h
    · have := padded_inj.mp h
      omega
    · exact absurd h.1 (by decide)
    · exact absurd h (hsign (by decide))
    · exact absurd h.1 (by decide)
    · have := padded_inj.mp h
      omega
    · exact absurd h (hsign (by decide))
    · exact absurd h.symm (hsign (by decide))
    · exact absurd h.symm (hsign (by decide))
    · have := padded_inj.mp h
      omega
  · rintro rfl
    rfl

/-- Two instants have the same `YYYYMMDD` form exactly when they fall on the same day. -/
theorem formatYmd_inj {t t' : DateTime} : formatYmd t = formatYmd t' ↔ t.day = t'.day := by
  constructor
  · intro h
    have hlist := congrArg String.toList h
    rw [toList_formatYmd, toList_formatYmd] at hlist
    obtain ⟨hm, hd⟩ := length_monthDay t.day
    obtain ⟨hm', hd'⟩ := length_monthDay t'.day
    obtain ⟨hyear, hrest⟩ := List.append_inj' hlist (by simp [hm, hd, hm', hd'])
    obtain ⟨hmonth, hday⟩ := List.append_inj hrest (by rw [hm, hm'])
    rw [← dayOfCivil_civilOfDay t.day, ← dayOfCivil_civilOfDay t'.day, yearText_inj.mp hyear,
      padded_inj.mp hmonth, padded_inj.mp hday]
  · intro h
    simp only [formatYmd, h]

/-- The date an eight-digit text names is written as that text. -/
theorem formatYmd_of_digits {cs : List Char} (hcs : IsDigits cs) (hlen : cs.length = 8) {day : ℤ}
    (h : fromYmdOpt (value (cs.take 4)) (value ((cs.drop 4).take 2)) (value (cs.drop 6)) =
      some day) (second : ℕ) : formatYmd ⟨day, second⟩ = String.ofList cs := by
  unfold fromYmdOpt at h
  split_ifs at h with hdate
  obtain rfl := Option.some.inj h
  have hcivil := civilOfDay_dayOfCivil ⟨hdate.1, hdate.2.1⟩ hdate.2.2
  have hyear : value (cs.take 4) < 10 ^ (cs.take 4).length :=
    value_lt fun c hc => hcs c (List.mem_of_mem_take hc)
  rw [List.length_take, hlen, Nat.min_eq_left (by decide)] at hyear
  apply String.toList_injective
  rw [toList_formatYmd, hcivil, String.toList_ofList]
  have hsplit : cs = cs.take 4 ++ ((cs.drop 4).take 2 ++ cs.drop 6) := by
    conv_lhs => rw [← List.take_append_drop 4 cs, ← List.take_append_drop 2 (cs.drop 4),
      List.drop_drop]
  have hpart : ∀ {ds : List Char}, ds ≠ [] → (∀ c ∈ ds, c ∈ cs) →
      padded ds.length (value ds) = ds := by
    intro ds hne hsub
    exact padded_value (fun c hc => hcs c (hsub c hc)) hne
  have hy4 : (cs.take 4).length = 4 := by simp [hlen]
  have hm2 : ((cs.drop 4).take 2).length = 2 := by simp [hlen]
  have hd2 : (cs.drop 6).length = 2 := by simp [hlen]
  have hyne : cs.take 4 ≠ [] := List.ne_nil_of_length_pos (by omega)
  have hmne : (cs.drop 4).take 2 ≠ [] := List.ne_nil_of_length_pos (by omega)
  have hdne : cs.drop 6 ≠ [] := List.ne_nil_of_length_pos (by omega)
  have hy := hpart hyne fun c hc => List.mem_of_mem_take hc
  have hm := hpart hmne fun c hc => List.mem_of_mem_drop (List.mem_of_mem_take hc)
  have hd := hpart hdne fun c hc => List.mem_of_mem_drop hc
  rw [hy4] at hy
  rw [hm2] at hm
  rw [hd2] at hd
  dsimp only
  rw [hm, hd]
  conv_rhs => rw [hsplit]
  congr 1
  unfold yearText
  rw [if_neg (by omega), if_neg (by omega), Int.natAbs_natCast, hy]
  rfl

end Text

end Calendar
end OptionChainBackend
