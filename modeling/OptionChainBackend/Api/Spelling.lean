import OptionChainBackend.Api.Expiration
import OptionChainBackend.Foundation.FirstMatch
import OptionChainBackend.Upstream.CivilDays
import OptionChainBackend.Upstream.Reference

/-!
The spellings of an expiration. Handlers that create books parse their segment; handlers that
look for a book first compare the segment with the dates of the books there are.
-/
namespace OptionChainBackend
open Foundation Foundation.Decimal Upstream

/-- `get_date` answers for every expiration: a relative one counts from the clock's day. -/
structure Dated (B : Type) [Upstream B] : Prop where
  days : ∀ now n, ∃ second, getDate B now (.days n) = some ⟨now / 86400000 + n, second⟩
  dateTime : ∀ now t, getDate B now (.dateTime t) = some t

theorem ReferenceBook.dated : Dated ReferenceBook where
  days now _ := ⟨now / 1000 % 86400, rfl⟩
  dateTime _ _ := rfl

/-- The day an expiration falls on, seen from `now`. -/
def ExpirationDate.dayAt (now : ℕ) : ExpirationDate → ℤ
  | .days n => now / 86400000 + n
  | .dateTime t => t.day

section Format
variable {B : Type} [Upstream B] {now now' : ℕ} {e e' : ExpirationDate} {s : String}

theorem Dated.format_eq (hd : Dated B) (now : ℕ) (e : ExpirationDate) :
    formatExpiration B now e = Calendar.formatYmd ⟨e.dayAt now, 0⟩ := by
  unfold formatExpiration
  cases e with
  | days n =>
    obtain ⟨second, hn⟩ := hd.days now n
    rw [hn]
    exact Calendar.formatYmd_inj.mpr rfl
  | dateTime t =>
    rw [hd.dateTime now t]
    exact Calendar.formatYmd_inj.mpr rfl

/-- Two expirations are written alike exactly when they fall on the same day. -/
theorem Dated.format_inj (hd : Dated B) :
    formatExpiration B now e = formatExpiration B now' e' ↔ e.dayAt now = e'.dayAt now' := by
  rw [hd.format_eq, hd.format_eq]
  exact Calendar.formatYmd_inj

end Format

section Parse
variable {s : String} {n : ℕ} {z : ℤ} {t : DateTime} {e : ExpirationDate}

theorem parseI32_spec (h : parseI32 s = some z) : ∃ cs, IsDigits cs ∧
    (s.toList = cs ∧ z = value cs ∨ s.toList = '+' :: cs ∧ z = value cs ∨
      s.toList = '-' :: cs ∧ z = -value cs) := by
  have hvalue : ∀ {sign : ℤ} {cs : List Char},
      (if cs ≠ [] ∧ cs.all Char.isDigit = true ∧ -2 ^ 31 ≤ sign * (digitsValue cs : ℤ) ∧
        sign * (digitsValue cs : ℤ) < 2 ^ 31 then some (sign * (digitsValue cs : ℤ)) else none) =
        some z → IsDigits cs ∧ z = sign * value cs := by
    intro sign cs hz
    split_ifs at hz with hc
    exact ⟨List.all_eq_true.mp hc.2.1, (Option.some.inj hz).symm⟩
  unfold parseI32 at h
  dsimp only at h
  split at h
  · rename_i cs heq
    obtain ⟨hd, hz⟩ := hvalue h
    exact ⟨cs, hd, .inr (.inl ⟨heq, by simpa using hz⟩)⟩
  · rename_i cs heq
    obtain ⟨hd, hz⟩ := hvalue h
    exact ⟨cs, hd, .inr (.inr ⟨heq, by simpa using hz⟩)⟩
  · obtain ⟨hd, hz⟩ := hvalue h
    exact ⟨_, hd, .inl ⟨rfl, by simpa using hz⟩⟩

/-- An accepted calendar segment is the date's own form, at 16:00. -/
theorem parseExpiration_dateTime (h : parseExpiration s = .ok (.dateTime t)) :
    IsDigits s.toList ∧ t.second = 57600 ∧ Calendar.formatYmd t = s := by
  unfold parseExpiration at h
  dsimp only at h
  split_ifs at h with hdate
  · split at h
    · rename_i day hday
      obtain rfl := ExpirationDate.dateTime.inj (Except.ok.inj h)
      have hdig : IsDigits s.toList := List.all_eq_true.mp hdate.2
      refine ⟨hdig, rfl, ?_⟩
      rw [Calendar.formatYmd_of_digits hdig hdate.1 hday, String.ofList_toList]
    · cases h
  · split at h
    · split_ifs at h
      cases h
    · cases h

/-- An accepted day count is a number of days, and no date is written like it. -/
theorem parseExpiration_days (h : parseExpiration s = .ok (.days n)) :
    (∃ cs, IsDigits cs ∧ (s.toList = cs ∨ s.toList = '+' :: cs)) ∧ 0 < n ∧ n ≤ 36500 ∧
      ∀ t, Calendar.formatYmd t ≠ s := by
  unfold parseExpiration at h
  dsimp only at h
  split_ifs at h with hdate
  · split at h
    · cases h
    · cases h
  split at h
  · rename_i z hz
    split_ifs at h with hneg hmax
    obtain rfl := ExpirationDate.days.inj (Except.ok.inj h)
    unfold maxExpirationDays at hmax
    obtain ⟨cs, hd, hcs⟩ := parseI32_spec hz
    have hshape : s.toList = cs ∧ z = value cs ∨ s.toList = '+' :: cs ∧ z = value cs := by
      rcases hcs with hcs | hcs | hcs
      · exact .inl hcs
      · exact .inr hcs
      · omega
    refine ⟨⟨cs, hd, ?_⟩, by omega, by omega, ?_⟩
    · rcases hshape with hs | hs
      · exact .inl hs.1
      · exact .inr hs.1
    · -- a date has eight digits, or a sign and a year beyond every day count
      rintro t rfl
      have hlist := Calendar.toList_formatYmd t
      obtain ⟨hm, hday⟩ := Calendar.length_monthDay t.day
      rw [hlist] at hshape hdate
      obtain ⟨year, hy⟩ : ∃ year, (Calendar.civilOfDay t.day).1 = year := ⟨_, rfl⟩
      obtain ⟨rest, hrest⟩ : ∃ rest, padded 2 (Calendar.civilOfDay t.day).2.1 ++
          padded 2 (Calendar.civilOfDay t.day).2.2 = rest := ⟨_, rfl⟩
      have hlen : rest.length = 4 := by simp [← hrest, hm, hday]
      have hdrest : IsDigits rest := hrest ▸ padded_isDigits.append padded_isDigits
      have hbody : IsDigits (padded 4 year.natAbs ++ rest) := padded_isDigits.append hdrest
      rw [hy, hrest, Calendar.yearText] at hshape hdate
      split_ifs at hshape hdate with hlow hhigh
      · rcases hshape with ⟨hs, -⟩ | ⟨hs, -⟩
        · exact absurd (hd '-' (hs ▸ List.mem_cons_self)) (by decide)
        · cases hs
      · rcases hshape with ⟨hs, -⟩ | ⟨hs, hv⟩
        · exact absurd (hd '+' (hs ▸ List.mem_cons_self)) (by decide)
        · have hcs : padded 4 year.natAbs ++ rest = cs := (List.cons.inj hs).2
          rw [← hcs, value_append, hlen, value_padded] at hv
          omega
      · apply hdate
        constructor
        · rw [List.nil_append, List.length_append, hlen, length_padded (by decide) (by omega)]
        · exact List.all_eq_true.mpr hbody
  · cases h

end Parse

namespace Exchange
variable {B : Type} [Upstream B] {x : Exchange B} {underlying s : String} {e : ExpirationDate}

/-- A segment leads to an expiration as the day count it was created with, or as the first
expiration listed that falls on the date written. -/
theorem findExpirationByStr_iff (hd : Dated B) (he : e ∈ x.expirations underlying) :
    x.findExpirationByStr underlying s = some e ↔
      (∃ n, parseExpiration s = .ok (.days n) ∧ e = .days n) ∨
      formatExpiration B x.now e = s ∧
        ∀ e' ∈ before (x.expirations underlying) e, formatExpiration B x.now e' ≠ s := by
  have hdays : ∀ {n}, parseExpiration s = .ok (.days n) → ∀ e', formatExpiration B x.now e' ≠ s := by
    intro n hn e'
    rw [hd.format_eq]
    exact (parseExpiration_days hn).2.2.2 _
  unfold findExpirationByStr
  cases hf : (x.expirations underlying).find? (fun e => formatExpiration B x.now e = s) with
  | some e' =>
    have hmatch : formatExpiration B x.now e' = s := by simpa using List.find?_some hf
    have hfirst := find?_eq_some_iff_before (l := x.expirations underlying) (a := e)
      (p := fun e => decide (formatExpiration B x.now e = s))
    rw [hf] at hfirst
    simp only [he, true_and, decide_eq_true_eq, decide_eq_false_iff_not] at hfirst
    dsimp only
    rw [hfirst]
    constructor
    · exact .inr
    · rintro (⟨n, hn, -⟩ | h)
      · exact absurd hmatch (hdays hn e')
      · exact h
  | none =>
    have hnone : ∀ e' ∈ x.expirations underlying, formatExpiration B x.now e' ≠ s := by
      simpa using hf
    dsimp only
    constructor
    · intro h
      cases hp : parseExpiration s with
      | error m =>
        rw [hp] at h
        cases h
      | ok e' =>
        rw [hp] at h
        obtain rfl : e = e' := by simpa using List.find?_some h
        cases e with
        | days n => exact .inl ⟨n, rfl, rfl⟩
        | dateTime t =>
          have hform := (parseExpiration_dateTime hp).2.2
          have hsame : formatExpiration B x.now (.dateTime t) = Calendar.formatYmd t := by
            rw [hd.format_eq]
            exact Calendar.formatYmd_inj.mpr rfl
          exact absurd (hsame.trans hform) (hnone _ he)
    · rintro (⟨n, hn, rfl⟩ | ⟨hform, -⟩)
      · simp only [hn]
        rw [find?_eq_some_iff_before]
        refine ⟨he, by simp, fun e' h' => ?_⟩
        simpa using ne_of_mem_before h'
      · exact absurd hform (hnone e he)

theorem mem_getOrCreateExpiration [LawfulUpstream B] (x : Exchange B) (underlying : String)
    (e : ExpirationDate) : e ∈ (x.getOrCreateExpiration underlying e).expirations underlying := by
  unfold getOrCreateExpiration
  split_ifs with h
  · simpa [Catalog.getExpiration] using h
  · simp only [Function.update_self]
    exact (LawfulUpstream.enlist_perm _ _).mem_iff.mpr List.mem_cons_self

/-- What a segment created is found again under that segment exactly when nothing listed before
it falls on the date written. -/
theorem created_found_iff [LawfulUpstream B] (hd : Dated B) (x : Exchange B) (underlying : String)
    (hp : parseExpiration s = .ok e) :
    (x.getOrCreateExpiration underlying e).findExpirationByStr underlying s = some e ↔
      ∀ e' ∈ before ((x.getOrCreateExpiration underlying e).expirations underlying) e,
        formatExpiration B x.now e' ≠ s := by
  have hnow : (x.getOrCreateExpiration underlying e).now = x.now := by
    unfold getOrCreateExpiration
    split_ifs <;> rfl
  rw [findExpirationByStr_iff hd (x.mem_getOrCreateExpiration underlying e), hnow]
  cases e with
  | days n =>
    have hnever : ∀ e', formatExpiration B x.now e' ≠ s := by
      intro e'
      rw [hd.format_eq]
      exact (parseExpiration_days hp).2.2.2 _
    exact iff_of_true (.inl ⟨n, hp, rfl⟩) fun e' _ => hnever e'
  | dateTime t =>
    have hform : formatExpiration B x.now (.dateTime t) = s := by
      rw [hd.format_eq, ← (parseExpiration_dateTime hp).2.2]
      exact Calendar.formatYmd_inj.mpr rfl
    constructor
    · rintro (⟨n, -, hn⟩ | h)
      · cases hn
      · exact h.2
    · exact fun h => .inr ⟨hform, h⟩

end Exchange

section Reference
open Exchange

/-- A book 30 days out, and then one for the same calendar date. -/
def daysThenDate : Exchange ReferenceBook := Exchange.init.getOrCreateExpiration "BTC" (.days 30)

theorem created_not_found : ¬ ∀ (x : Exchange ReferenceBook) (underlying s : String)
    (e : ExpirationDate), parseExpiration s = .ok e →
      (x.getOrCreateExpiration underlying e).findExpirationByStr underlying s = some e := by
  intro h
  have hp : parseExpiration "19700131" = .ok (.dateTime ⟨30, 57600⟩) := by decide +kernel
  exact absurd (h daysThenDate "BTC" "19700131" _ hp) (by decide +kernel)

theorem created_found_days : (daysThenDate.getOrCreateExpiration "BTC" (.days 31)
    ).findExpirationByStr "BTC" "+31" = some (.days 31) := by
  have hp : parseExpiration "+31" = .ok (.days 31) := by decide +kernel
  exact (created_found_iff ReferenceBook.dated daysThenDate "BTC" hp).mpr (by decide +kernel)

end Reference
end OptionChainBackend
