import Mathlib.Data.List.Find
import OptionChainBackend.Api.Spelling
import OptionChainBackend.Feed.Depth

/-!
The two lookups of an expiration by its segment. The handlers look for a written date and then for
what the segment parses to; the subscriptions take the first match of either kind. No segment can
match both ways.
-/
namespace OptionChainBackend
open Foundation Upstream

namespace Websocket
variable {B : Type} [Upstream B] {x : Exchange B} {underlying s : String} {e : ExpirationDate}

/-- The structural key of the subscriptions is the day count the handlers parse. -/
theorem structural_iff : structural s = some e ↔
    ∃ n, e = .days n ∧ parseExpiration s = .ok (.days n) := by
  unfold structural parseExpiration
  dsimp only
  by_cases hdate : s.toList.length = 8 ∧ s.toList.all Char.isDigit
  · rw [if_pos hdate, if_pos hdate]
    constructor
    · nofun
    · rintro ⟨n, -, hn⟩
      split at hn <;> cases hn
  · rw [if_neg hdate, if_neg hdate]
    cases parseI32 s with
    | none =>
      constructor
      · nofun
      · rintro ⟨n, -, hn⟩
        cases hn
    | some days =>
      by_cases hlow : days ≤ 0
      · simp [hlow]
      · by_cases hhigh : maxExpirationDays < days
        · simp [hlow, hhigh]
        · have hin : 0 < days ∧ days ≤ maxExpirationDays := by omega
          simp [hlow, hhigh, hin, eq_comm]

/-- A date that was read off a segment is written as that segment. -/
theorem written_of_instant (hself : ∀ t, getDate B x.now (.dateTime t) = some t) {t : DateTime}
    (hp : parseExpiration s = .ok (.dateTime t)) : formatExpiration B x.now (.dateTime t) = s := by
  simp [formatExpiration, hself t, (parseExpiration_dateTime hp).2.2]

/-- No date is written like a day count. -/
theorem unwritten_of_days {n : ℕ} (hdated : (getDate B x.now e).isSome)
    (hp : parseExpiration s = .ok (.days n)) : formatExpiration B x.now e ≠ s := by
  obtain ⟨t, ht⟩ := Option.isSome_iff_exists.mp hdated
  simpa [formatExpiration, ht] using (parseExpiration_days hp).2.2.2 t

/-- The lookup of the handlers, in its two passes. -/
theorem findExpirationByStr_passes : x.findExpirationByStr underlying s =
    ((x.expirations underlying).find? fun e => decide (formatExpiration B x.now e = s)).or
      ((x.expirations underlying).find? fun e => decide (parseExpiration s = .ok e)) := by
  unfold Exchange.findExpirationByStr
  cases (x.expirations underlying).find? fun e => decide (formatExpiration B x.now e = s) with
  | some e => rfl
  | none =>
    cases parseExpiration s with
    | error m =>
      symm
      simp
    | ok parsed => simp [eq_comm]

/-- When every listed expiration has a date, and an instant is its own, both lookups agree. -/
theorem findExpirationByStr_eq (hself : ∀ t, getDate B x.now (.dateTime t) = some t)
    (hdated : ∀ e ∈ x.expirations underlying, (getDate B x.now e).isSome) :
    x.findExpirationByStr underlying s = findExpirationByStr x underlying s := by
  have hcompete :
      (∀ e ∈ x.expirations underlying, decide (formatExpiration B x.now e = s) = false) ∨
      ∀ e ∈ x.expirations underlying, decide (parseExpiration s = .ok e) = true →
        decide (formatExpiration B x.now e = s) = true := by
    cases hp : parseExpiration s with
    | error m =>
      right
      simp
    | ok parsed =>
      cases parsed with
      | days n =>
        left
        intro e he
        exact decide_eq_false (unwritten_of_days (hdated e he) hp)
      | dateTime t =>
        right
        intro e he hmatch
        obtain rfl := Except.ok.inj (of_decide_eq_true hmatch)
        exact decide_eq_true (written_of_instant hself hp)
  -- what is left of the parsed key beside the written one is the structural key
  have heither : ∀ e ∈ x.expirations underlying,
      (decide (formatExpiration B x.now e = s) || decide (parseExpiration s = .ok e)) =
        decide (formatExpiration B x.now e = s ∨ structural s = some e) := by
    intro e he
    rw [← Bool.decide_or, decide_eq_decide, structural_iff]
    constructor
    · rintro (h | h)
      · exact .inl h
      · cases e with
        | days n => exact .inr ⟨n, rfl, h⟩
        | dateTime t => exact .inl (written_of_instant hself h)
    · rintro (h | ⟨n, rfl, h⟩)
      · exact .inl h
      · exact .inr h
  rw [findExpirationByStr_passes, find?_two_passes hcompete]
  exact List.find?_congr heither

/-- Thirty days and the calendar date they lead to, one listed after the other. -/
theorem findExpirationByStr_eq_twice :
    (daysThenDate.getOrCreateExpiration "BTC" (.dateTime ⟨30, 57600⟩)).findExpirationByStr "BTC"
        "19700131" =
      findExpirationByStr (daysThenDate.getOrCreateExpiration "BTC" (.dateTime ⟨30, 57600⟩)) "BTC"
        "19700131" :=
  findExpirationByStr_eq (fun _ => rfl) (by decide +kernel)

end Websocket
end OptionChainBackend
