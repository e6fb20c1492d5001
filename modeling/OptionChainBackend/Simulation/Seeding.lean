import OptionChainBackend.Api.Spelling
import OptionChainBackend.Simulation.Config
import OptionChainBackend.Upstream.Ages

/-!
The books of a configuration (`AppState::from_config`). The dates of a configuration are read by a
parser of their own, which slices the same eight characters as that of the handlers but lets a sign
stand in front of each number.
-/
namespace OptionChainBackend
open Foundation Foundation.Decimal Upstream MarketMaker Exchange

/-- `str::parse::<u32>`. -/
def parseU32 (cs : List Char) : Option ℕ :=
  let digits := match cs with
    | '+' :: cs => cs
    | cs => cs
  if digits ≠ [] ∧ digits.all Char.isDigit ∧ digitsValue digits < 2 ^ 32 then
    some (digitsValue digits)
  else none

/-- `AppState::parse_expiration`. In ASCII, eight bytes are eight characters. -/
def AppState.parseExpiration (expStr : String) : Option ExpirationDate :=
  let cs := expStr.toList
  if cs.length ≠ 8 ∨ ¬ cs.all (fun c => decide (c.toNat < 128)) then none
  else
    match parseI32 (String.ofList (cs.take 4)), parseU32 ((cs.drop 4).take 2),
        parseU32 (cs.drop 6) with
    | some year, some month, some day =>
      (Calendar.fromYmdOpt year month day).map fun date => .dateTime ⟨date, 16 * 3600⟩
    | _, _, _ => none

section Seeding
variable {B F : Type} [Upstream B] [F64 F]

def seedExpiration (asset : AssetConfig F) (x : Exchange B) (expStr : String) : Exchange B :=
  match AppState.parseExpiration expStr with
  | none => x
  | some e => asset.generateStrikes.foldl
      (fun x strike => x.getOrCreateStrike asset.symbol e strike)
      (x.getOrCreateExpiration asset.symbol e)

def initializeAssetOrderBooks (x : Exchange B) (asset : AssetConfig F) : Exchange B :=
  asset.expirations.foldl (seedExpiration asset) (x.getOrCreate asset.symbol)

/-- The books of a process that has just read its configuration. -/
def fromConfig (B : Type) [Upstream B] (now : ℕ) (assets : List (AssetConfig F)) : Exchange B :=
  assets.foldl initializeAssetOrderBooks { Exchange.init with now := now }

end Seeding

/-- Eight characters in three fields, each a number with or without a sign in front, that name a
day of the calendar. The signs are `sy`, `sm` and `sd`. -/
structure ReadsAsDate (s : String) (sy sm sd : List Char) (date : ℤ) : Prop where
  year_sign : sy = [] ∨ sy = ['+'] ∨ sy = ['-']
  month_sign : sm = [] ∨ sm = ['+']
  day_sign : sd = [] ∨ sd = ['+']
  fields : ∃ year month day, s.toList = (sy ++ year) ++ ((sm ++ month) ++ (sd ++ day)) ∧
    (sy ++ year).length = 4 ∧ (sm ++ month).length = 2 ∧ (sd ++ day).length = 2 ∧
    (year ≠ [] ∧ IsDigits year) ∧ (month ≠ [] ∧ IsDigits month) ∧ (day ≠ [] ∧ IsDigits day) ∧
    Calendar.fromYmdOpt (if sy = ['-'] then -(value year : ℤ) else value year) (value month)
      (value day) = some date

/-- A date with at least one sign. -/
def SignedDate (s : String) : Prop :=
  ∃ sy sm sd date, ReadsAsDate s sy sm sd date ∧ sy ++ sm ++ sd ≠ []

section Numbers
variable {cs : List Char} {n : ℕ} {z : ℤ}

theorem not_sign_of_digits {c : Char} (hc : c = '+' ∨ c = '-') (h : IsDigits cs) : c ∉ cs := by
  intro hmem
  have hdigit := h c hmem
  rcases hc with rfl | rfl <;> exact absurd hdigit (by decide)

/-- What a short field reads as when a plus sign is allowed. -/
theorem parseU32_iff (hlen : cs.length ≤ 2) : parseU32 cs = some n ↔
    ∃ sign ds, (sign = [] ∨ sign = ['+']) ∧ cs = sign ++ ds ∧ (ds ≠ [] ∧ IsDigits ds) ∧
      n = value ds := by
  have hread : ∀ ds : List Char, ds.length ≤ 2 → ((if ds ≠ [] ∧ ds.all Char.isDigit = true ∧
      digitsValue ds < 2 ^ 32 then some (digitsValue ds) else none) = some n ↔
      (ds ≠ [] ∧ IsDigits ds) ∧ n = value ds) := by
    intro ds hds
    constructor
    · intro h
      split_ifs at h with hc
      exact ⟨⟨hc.1, List.all_eq_true.mp hc.2.1⟩, (Option.some.inj h).symm⟩
    · rintro ⟨⟨hne, hd⟩, rfl⟩
      have hlt : value ds < 2 ^ 32 :=
        (value_lt hd).trans_le ((Nat.pow_le_pow_right (by decide) hds).trans (by decide))
      exact if_pos ⟨hne, List.all_eq_true.mpr hd, hlt⟩
  unfold parseU32
  dsimp only
  split
  · rename_i ds
    rw [hread ds (by simp at hlen; omega)]
    constructor
    · rintro ⟨hd, hn⟩
      exact ⟨['+'], ds, .inr rfl, rfl, hd, hn⟩
    · rintro ⟨sign, ds', rfl | rfl, hcs, hd, hn⟩
      · have hmem : '+' ∈ ds' := by simp [← (List.nil_append ds' ▸ hcs)]
        exact absurd hmem (not_sign_of_digits (.inl rfl) hd.2)
      · obtain rfl := (List.cons.inj hcs).2
        exact ⟨hd, hn⟩
  · rename_i hplain
    rw [hread cs hlen]
    constructor
    · rintro ⟨hd, hn⟩
      exact ⟨[], cs, .inl rfl, rfl, hd, hn⟩
    · rintro ⟨sign, ds, rfl | rfl, rfl, hd, hn⟩
      · exact ⟨hd, hn⟩
      · exact absurd rfl (hplain ds)

/-- The same with either sign. -/
theorem parseI32_iff (hlen : cs.length ≤ 4) : parseI32 (String.ofList cs) = some z ↔
    ∃ sign ds, (sign = [] ∨ sign = ['+'] ∨ sign = ['-']) ∧ cs = sign ++ ds ∧
      (ds ≠ [] ∧ IsDigits ds) ∧ z = if sign = ['-'] then -(value ds : ℤ) else value ds := by
  have hread : ∀ (sign : ℤ) (ds : List Char), (sign = 1 ∨ sign = -1) → ds.length ≤ 4 →
      ((if ds ≠ [] ∧ ds.all Char.isDigit = true ∧ -2 ^ 31 ≤ sign * (digitsValue ds : ℤ) ∧
        sign * (digitsValue ds : ℤ) < 2 ^ 31 then some (sign * (digitsValue ds : ℤ)) else none) =
        some z ↔ (ds ≠ [] ∧ IsDigits ds) ∧ z = sign * value ds) := by
    intro sign ds hsign hds
    constructor
    · intro h
      split_ifs at h with hc
      exact ⟨⟨hc.1, List.all_eq_true.mp hc.2.1⟩, (Option.some.inj h).symm⟩
    · rintro ⟨⟨hne, hd⟩, rfl⟩
      have hlt : value ds < 10000 :=
        (value_lt hd).trans_le ((Nat.pow_le_pow_right (by decide) hds).trans (by decide))
      have hsame : digitsValue ds = value ds := rfl
      rw [hsame]
      apply if_pos
      refine ⟨hne, List.all_eq_true.mpr hd, ?_, ?_⟩ <;> rcases hsign with rfl | rfl <;> omega
  unfold parseI32
  dsimp only
  rw [String.toList_ofList]
  split
  · rename_i ds
    rw [hread 1 ds (.inl rfl) (by simp at hlen; omega)]
    constructor
    · rintro ⟨hd, hz⟩
      exact ⟨['+'], ds, .inr (.inl rfl), rfl, hd, by simpa using hz⟩
    · rintro ⟨sign, ds', rfl | rfl | rfl, hcs, hd, hz⟩
      · have hmem : '+' ∈ ds' := by simp [← (List.nil_append ds' ▸ hcs)]
        exact absurd hmem (not_sign_of_digits (.inl rfl) hd.2)
      · obtain rfl := (List.cons.inj hcs).2
        exact ⟨hd, by simpa using hz⟩
      · exact absurd (List.cons.inj hcs).1 (by decide)
  · rename_i ds
    rw [hread (-1) ds (.inr rfl) (by simp at hlen; omega)]
    constructor
    · rintro ⟨hd, hz⟩
      exact ⟨['-'], ds, .inr (.inr rfl), rfl, hd, by simpa using hz⟩
    · rintro ⟨sign, ds', rfl | rfl | rfl, hcs, hd, hz⟩
      · have hmem : '-' ∈ ds' := by simp [← (List.nil_append ds' ▸ hcs)]
        exact absurd hmem (not_sign_of_digits (.inr rfl) hd.2)
      · exact absurd (List.cons.inj hcs).1 (by decide)
      · obtain rfl := (List.cons.inj hcs).2
        exact ⟨hd, by simpa using hz⟩
  · rename_i hplus hminus
    rw [hread 1 cs (.inl rfl) hlen]
    constructor
    · rintro ⟨hd, hz⟩
      exact ⟨[], cs, .inl rfl, rfl, hd, by simpa using hz⟩
    · rintro ⟨sign, ds, rfl | rfl | rfl, rfl, hd, hz⟩
      · exact ⟨hd, by simpa using hz⟩
      · exact absurd rfl (hplus ds)
      · exact absurd rfl (hminus ds)

end Numbers

section Fields
variable {cs year month day : List Char}

/-- The three slices are the whole. -/
theorem join_fields (cs : List Char) :
    cs.take 4 ++ ((cs.drop 4).take 2 ++ cs.drop 6) = cs := by
  have hrest := List.take_append_drop 2 (cs.drop 4)
  rw [List.drop_drop] at hrest
  rw [hrest, List.take_append_drop]

/-- What is joined of four, two and the rest is sliced into them. -/
theorem slice_fields (hs : cs = year ++ (month ++ day)) (hyear : year.length = 4)
    (hmonth : month.length = 2) :
    cs.take 4 = year ∧ (cs.drop 4).take 2 = month ∧ cs.drop 6 = day := by
  subst hs
  have htwo : ((year ++ (month ++ day)).drop 4).drop 2 = day := by
    rw [List.drop_left' hyear, List.drop_left' hmonth]
  refine ⟨List.take_left' hyear, ?_, ?_⟩
  · rw [List.drop_left' hyear, List.take_left' hmonth]
  · rwa [List.drop_drop] at htwo

theorem isAscii_of_digits (h : IsDigits cs) : ∀ c ∈ cs, c.toNat < 128 := by
  intro c hc
  have hbounds := isDigit_bounds (h c hc)
  omega

theorem isAscii_of_signed {sign : List Char} (hsign : sign = [] ∨ sign = ['+'] ∨ sign = ['-'])
    (h : IsDigits cs) : ∀ c ∈ sign ++ cs, c.toNat < 128 := by
  intro c hc
  rcases List.mem_append.mp hc with hc | hc
  · rcases hsign with rfl | rfl | rfl
    · cases hc
    · obtain rfl := List.mem_singleton.mp hc
      decide
    · obtain rfl := List.mem_singleton.mp hc
      decide
  · exact isAscii_of_digits h c hc

end Fields

section Agreement
variable {s : String} {sy sm sd : List Char} {date : ℤ} {e : ExpirationDate}

theorem ReadsAsDate.length_eq (h : ReadsAsDate s sy sm sd date) : s.toList.length = 8 := by
  obtain ⟨year, month, day, hs, hly, hlm, hld, -⟩ := h.fields
  have hrest : ((sm ++ month) ++ (sd ++ day)).length = 4 := by
    rw [List.length_append, hlm, hld]
  rw [hs, List.length_append, hly, hrest]

theorem ReadsAsDate.isAscii (h : ReadsAsDate s sy sm sd date) :
    s.toList.all (fun c => decide (c.toNat < 128)) = true := by
  obtain ⟨year, month, day, hs, -, -, -, hyd, hmd, hdd, -⟩ := h.fields
  rw [List.all_eq_true]
  intro c hc
  rw [decide_eq_true_eq]
  rw [hs] at hc
  rcases List.mem_append.mp hc with hc | hc
  · exact isAscii_of_signed h.year_sign hyd.2 c hc
  rcases List.mem_append.mp hc with hc | hc
  · exact isAscii_of_signed (h.month_sign.imp_right .inl) hmd.2 c hc
  · exact isAscii_of_signed (h.day_sign.imp_right .inl) hdd.2 c hc

/-- The configuration accepts exactly what reads as a date. -/
theorem seeded_iff : AppState.parseExpiration s = some e ↔
    ∃ sy sm sd date, ReadsAsDate s sy sm sd date ∧ e = .dateTime ⟨date, 57600⟩ := by
  unfold AppState.parseExpiration
  dsimp only
  constructor
  · intro h
    split_ifs at h with hguard
    push Not at hguard
    obtain ⟨hlen, -⟩ := hguard
    split at h
    · rename_i year month day hy hm hd
      obtain ⟨date, hdate, rfl⟩ := Option.map_eq_some_iff.mp h
      obtain ⟨sy, ys, hsy, hys, hyd, rfl⟩ := (parseI32_iff (by simp)).mp hy
      obtain ⟨sm, ms, hsm, hms, hmd, rfl⟩ := (parseU32_iff (by simp)).mp hm
      obtain ⟨sd, ds, hsd, hds, hdd, rfl⟩ := (parseU32_iff (by simp [hlen])).mp hd
      refine ⟨sy, sm, sd, date,
        ⟨hsy, hsm, hsd, ys, ms, ds, ?_, ?_, ?_, ?_, hyd, hmd, hdd, hdate⟩, rfl⟩
      · rw [← hys, ← hms, ← hds, join_fields]
      · simp [← hys, hlen]
      · simp [← hms, hlen]
      · simp [← hds, hlen]
    · cases h
  · rintro ⟨sy, sm, sd, date, hr, rfl⟩
    obtain ⟨year, month, day, hs, hly, hlm, hld, hyd, hmd, hdd, hdate⟩ := hr.fields
    obtain ⟨hyear, hmonth, hday⟩ := slice_fields hs hly hlm
    rw [if_neg (by simp [hr.length_eq, hr.isAscii]), hyear, hmonth, hday,
      (parseI32_iff hly.le).mpr ⟨sy, year, hr.year_sign, rfl, hyd, rfl⟩,
      (parseU32_iff hlm.le).mpr ⟨sm, month, hr.month_sign, rfl, hmd, rfl⟩,
      (parseU32_iff hld.le).mpr ⟨sd, day, hr.day_sign, rfl, hdd, rfl⟩]
    simp [hdate]

theorem ReadsAsDate.accepted (h : ReadsAsDate s [] [] [] date) :
    parseExpiration s = .ok (.dateTime ⟨date, 57600⟩) := by
  obtain ⟨year, month, day, hs, hly, hlm, -, hyd, hmd, hdd, hdate⟩ := h.fields
  simp only [List.nil_append] at hs hly hlm
  obtain ⟨hyear, hmonth, hday⟩ := slice_fields hs hly hlm
  have hdigits : s.toList.all Char.isDigit = true := by
    rw [hs]
    exact List.all_eq_true.mpr (hyd.2.append (hmd.2.append hdd.2))
  have hymd : Calendar.fromYmdOpt (digitsValue year) (digitsValue month) (digitsValue day) =
      some date := by simpa [digitsValue, value] using hdate
  unfold parseExpiration
  dsimp only
  rw [if_pos ⟨h.length_eq, hdigits⟩, hyear, hmonth, hday, hymd]

/-- The handlers accept eight digits as a date only, read without signs. -/
theorem readsAsDate_of_accepted (hlen : s.toList.length = 8) (hdigits : IsDigits s.toList)
    (h : parseExpiration s = .ok e) :
    ∃ date, ReadsAsDate s [] [] [] date ∧ e = .dateTime ⟨date, 57600⟩ := by
  unfold parseExpiration at h
  dsimp only at h
  rw [if_pos ⟨hlen, List.all_eq_true.mpr hdigits⟩] at h
  split at h
  · rename_i date hdate
    obtain rfl := Except.ok.inj h
    have hsub : ∀ l : List Char, l.length ≠ 0 → (∀ c ∈ l, c ∈ s.toList) → l ≠ [] ∧ IsDigits l := by
      intro l hl hmem
      exact ⟨fun hnil => hl (by simp [hnil]), fun c hc => hdigits c (hmem c hc)⟩
    refine ⟨date, ⟨.inl rfl, .inl rfl, .inl rfl, s.toList.take 4, (s.toList.drop 4).take 2,
      s.toList.drop 6, ?_, ?_, ?_, ?_, ?_, ?_, ?_, ?_⟩, rfl⟩
    · simp only [List.nil_append]
      rw [join_fields]
    · simp [hlen]
    · simp [hlen]
    · simp [hlen]
    · exact hsub _ (by simp [hlen]) fun c hc => List.mem_of_mem_take hc
    · exact hsub _ (by simp [hlen]) fun c hc => List.mem_of_mem_drop (List.mem_of_mem_take hc)
    · exact hsub _ (by simp [hlen]) fun c hc => List.mem_of_mem_drop hc
    · simpa [digitsValue, value] using hdate
  · cases h

/-- A sign is no digit. -/
theorem ReadsAsDate.unsigned (h : ReadsAsDate s sy sm sd date) (hdigits : IsDigits s.toList) :
    sy = [] ∧ sm = [] ∧ sd = [] := by
  obtain ⟨year, month, day, hs, -⟩ := h.fields
  have hno : ∀ c : Char, c = '+' ∨ c = '-' → c ∉ sy ++ (sm ++ sd) := by
    intro c hc hmem
    apply not_sign_of_digits hc hdigits
    rw [hs]
    simp only [List.mem_append] at hmem ⊢
    tauto
  refine ⟨?_, ?_, ?_⟩
  · rcases h.year_sign with h | h | h
    · exact h
    · exact absurd (by simp [h]) (hno '+' (.inl rfl))
    · exact absurd (by simp [h]) (hno '-' (.inr rfl))
  · rcases h.month_sign with h | h
    · exact h
    · exact absurd (by simp [h]) (hno '+' (.inl rfl))
  · rcases h.day_sign with h | h
    · exact h
    · exact absurd (by simp [h]) (hno '+' (.inl rfl))

end Agreement

section Books
variable {B F : Type} [Upstream B] [F64 F] {x : Exchange B} {asset : AssetConfig F}
  {assets : List (AssetConfig F)} {s : String} {e : ExpirationDate} {now : ℕ}

/-- All listed expirations are dates, at the hour of the configuration. -/
def AllSeeded (x : Exchange B) : Prop :=
  ∀ u, ∀ e ∈ x.expirations u, ∃ date, e = .dateTime ⟨date, 57600⟩

omit [F64 F] in
theorem getOrCreateStrikes_idle (x : Exchange B) (u : String) (e : ExpirationDate)
    (strikes : List ℕ) :
    Idle x (strikes.foldl (fun x strike => x.getOrCreateStrike u e strike) x) := by
  induction strikes generalizing x with
  | nil => exact .refl x
  | cons strike strikes ih => exact (getOrCreateStrike_idle x u e strike).trans (ih _)

omit [F64 F] in
theorem getOrCreateStrikes_lists (x : Exchange B) (u : String) (e : ExpirationDate)
    (strikes : List ℕ) :
    (strikes.foldl (fun x strike => x.getOrCreateStrike u e strike) x).underlyings =
        x.underlyings ∧
      (strikes.foldl (fun x strike => x.getOrCreateStrike u e strike) x).expirations =
        x.expirations := by
  induction strikes generalizing x with
  | nil => simp
  | cons strike strikes ih =>
    obtain ⟨hu, he⟩ := ih (x.getOrCreateStrike u e strike)
    rw [List.foldl_cons, hu, he]
    unfold Exchange.getOrCreateStrike
    split_ifs <;> simp

omit [F64 F] in
theorem getOrCreateStrikes_hasBook {x : Exchange B} {a : OptionAddr} {strikes : List ℕ}
    (hu : x.get a.underlying = true) (he : x.getExpiration a.underlying a.expiration = true)
    (hk : a.strike ∈ strikes) :
    (strikes.foldl (fun x strike => x.getOrCreateStrike a.underlying a.expiration strike)
      x).hasBook a = true := by
  apply foldl_establishes (K := fun x : Exchange B => x.get a.underlying = true ∧
    x.getExpiration a.underlying a.expiration = true)
    (P := fun x : Exchange B => x.hasBook a = true) (i := a.strike)
  · rintro x strike ⟨hu, he⟩
    unfold Exchange.getOrCreateStrike
    split_ifs <;> exact ⟨hu, he⟩
  · exact fun x strike _ hb => getOrCreateStrike_grows x _ _ strike a hb
  · rintro x ⟨hu, he⟩
    unfold Exchange.getOrCreateStrike
    split_ifs with hlisted
    · simp [Catalog.hasBook, hu, he, hlisted]
    · simp only [Catalog.hasBook, Catalog.get, Catalog.getExpiration, Catalog.getStrike,
        Bool.and_eq_true, decide_eq_true_eq] at hu he ⊢
      simp [hu, he]
  · exact ⟨hu, he⟩
  · exact hk

variable [LawfulUpstream B]

theorem seedExpiration_idle (asset : AssetConfig F) (x : Exchange B) (s : String) :
    Idle x (seedExpiration asset x s) := by
  unfold seedExpiration
  cases AppState.parseExpiration s with
  | none => exact .refl x
  | some e =>
    apply (getOrCreateExpiration_idle x asset.symbol e).trans
    exact getOrCreateStrikes_idle _ asset.symbol e asset.generateStrikes

omit [LawfulUpstream B] in
theorem seedExpiration_get {u : String} (hu : x.get u = true) :
    (seedExpiration asset x s).get u = true := by
  unfold seedExpiration
  cases AppState.parseExpiration s with
  | none => exact hu
  | some e =>
    dsimp only [Catalog.get]
    rw [(getOrCreateStrikes_lists _ asset.symbol e asset.generateStrikes).1]
    unfold Exchange.getOrCreateExpiration
    split_ifs <;> exact hu

theorem seedExpiration_hasBook {a : OptionAddr} (hu : x.get asset.symbol = true)
    (ha : a.underlying = asset.symbol) (hk : a.strike ∈ asset.generateStrikes)
    (hs : AppState.parseExpiration s = some a.expiration) :
    (seedExpiration asset x s).hasBook a = true := by
  unfold seedExpiration
  rw [hs]
  dsimp only
  rw [← ha] at hu ⊢
  apply getOrCreateStrikes_hasBook _ _ hk
  · unfold Exchange.getOrCreateExpiration
    split_ifs <;> exact hu
  · simpa [Catalog.getExpiration] using x.mem_getOrCreateExpiration a.underlying a.expiration

theorem seedExpiration_seeded (h : AllSeeded x) (s : String) :
    AllSeeded (seedExpiration asset x s) := by
  unfold seedExpiration
  cases hp : AppState.parseExpiration s with
  | none => exact h
  | some e =>
    obtain ⟨-, -, -, date, -, rfl⟩ := seeded_iff.mp hp
    intro u e' he'
    dsimp only at he'
    rw [(getOrCreateStrikes_lists _ asset.symbol _ asset.generateStrikes).2] at he'
    unfold Exchange.getOrCreateExpiration at he'
    split_ifs at he' with hlisted
    · exact h u e' he'
    · by_cases hu : u = asset.symbol
      · subst hu
        dsimp only at he'
        rw [Function.update_self, (LawfulUpstream.enlist_perm _ _).mem_iff] at he'
        rcases List.mem_cons.mp he' with rfl | hmem
        · exact ⟨date, rfl⟩
        · exact h _ e' hmem
      · dsimp only at he'
        rw [Function.update_of_ne hu] at he'
        exact h u e' he'

theorem initializeAssetOrderBooks_idle (x : Exchange B) (asset : AssetConfig F) :
    Idle x (initializeAssetOrderBooks x asset) := by
  have hfold : ∀ (expirations : List String) (x : Exchange B),
      Idle x (expirations.foldl (seedExpiration asset) x) := by
    intro expirations
    induction expirations with
    | nil => exact .refl
    | cons s expirations ih => exact fun x => (seedExpiration_idle asset x s).trans (ih _)
  exact (getOrCreate_idle x asset.symbol).trans (hfold asset.expirations _)

theorem initializeAssetOrderBooks_hasBook {a : OptionAddr} (x : Exchange B)
    (ha : a.underlying = asset.symbol) (hk : a.strike ∈ asset.generateStrikes)
    (hs : AppState.parseExpiration s = some a.expiration) (hmem : s ∈ asset.expirations) :
    (initializeAssetOrderBooks x asset).hasBook a = true := by
  apply foldl_establishes (K := fun x : Exchange B => x.get asset.symbol = true)
    (P := fun x : Exchange B => x.hasBook a = true) (i := s)
  · exact fun x s hu => seedExpiration_get hu
  · exact fun x s _ hb => (seedExpiration_idle asset x s).grows a hb
  · exact fun x hu => seedExpiration_hasBook hu ha hk hs
  · unfold Exchange.getOrCreate
    split_ifs with hu
    · exact hu
    · simp [Catalog.get]
  · exact hmem

theorem initializeAssetOrderBooks_seeded (h : AllSeeded x) (asset : AssetConfig F) :
    AllSeeded (initializeAssetOrderBooks x asset) := by
  have hstart : AllSeeded (x.getOrCreate asset.symbol) := by
    unfold Exchange.getOrCreate
    split_ifs <;> exact h
  exact List.foldlRecOn asset.expirations _ hstart fun x hx s _ => seedExpiration_seeded hx s

theorem fromConfig_hasBook {a : OptionAddr} (hasset : asset ∈ assets)
    (ha : a.underlying = asset.symbol) (hk : a.strike ∈ asset.generateStrikes)
    (hs : AppState.parseExpiration s = some a.expiration) (hmem : s ∈ asset.expirations) :
    (fromConfig B now assets).hasBook a = true := by
  apply foldl_establishes (K := fun _ => True) (P := fun x : Exchange B => x.hasBook a = true)
    (i := asset)
  · exact fun _ _ _ => trivial
  · exact fun x asset' _ hb => (initializeAssetOrderBooks_idle x asset').grows a hb
  · exact fun x _ => initializeAssetOrderBooks_hasBook x ha hk hs hmem
  · trivial
  · exact hasset

theorem fromConfig_seeded (now : ℕ) (assets : List (AssetConfig F)) :
    AllSeeded (fromConfig B now assets) := by
  apply List.foldlRecOn assets
  · intro u e he
    cases he
  · exact fun x hx asset _ => initializeAssetOrderBooks_seeded hx asset

omit [LawfulUpstream B] in
/-- Among dates alone, the date written is the only one that matches. -/
theorem AllSeeded.found (hd : Dated B) (h : AllSeeded x) {u : String} (he : e ∈ x.expirations u)
    (hp : parseExpiration s = .ok e) : x.findExpirationByStr u s = some e := by
  obtain ⟨date, rfl⟩ := h u e he
  have hform := (parseExpiration_dateTime hp).2.2
  have hday : ∀ date', formatExpiration B x.now (.dateTime ⟨date', 57600⟩) = s ↔ date' = date := by
    intro date'
    rw [hd.format_eq, ← hform, Calendar.formatYmd_inj]
    exact Iff.rfl
  rw [findExpirationByStr_iff hd he]
  refine .inr ⟨(hday date).mpr rfl, fun e' he' hsame => ?_⟩
  obtain ⟨date', rfl⟩ := h u e' ((List.takeWhile_sublist _).subset he')
  obtain rfl := (hday date').mp hsame
  exact ne_of_mem_before he' rfl

end Books

section Result
variable (B F : Type) [Upstream B] [F64 F]

/-- The configuration and the handlers read `s` alike: what the one accepts is the same expiration
to the other, every book it configures is found under it at any later time, and as eight digits it
is accepted by both or by neither. -/
structure SeedsAlike (s : String) : Prop where
  same : ∀ e, AppState.parseExpiration s = some e → parseExpiration s = .ok e
  reached : ∀ (assets : List (AssetConfig F)), ∀ asset ∈ assets, s ∈ asset.expirations →
    ∀ e, AppState.parseExpiration s = some e → ∀ strike ∈ asset.generateStrikes,
    ∀ style started now, Exchange.locate { fromConfig B started assets with now := now }
      asset.symbol s strike style = .ok ⟨asset.symbol, e, strike, style⟩
  eightDigits : s.toList.length = 8 → IsDigits s.toList →
    ((AppState.parseExpiration s).isSome ↔ ∃ e, parseExpiration s = .ok e)

variable {B F}

theorem seedsAlike_iff [LawfulUpstream B] (hd : Dated B) (s : String) :
    SeedsAlike B F s ↔ ¬ SignedDate s := by
  constructor
  · rintro h ⟨sy, sm, sd, date, hr, hsigned⟩
    have hp := h.same _ (seeded_iff.mpr ⟨sy, sm, sd, date, hr, rfl⟩)
    obtain ⟨rfl, rfl, rfl⟩ := hr.unsigned (parseExpiration_dateTime hp).1
    exact hsigned rfl
  · intro h
    have hplain : ∀ e, AppState.parseExpiration s = some e → parseExpiration s = .ok e := by
      intro e he
      obtain ⟨sy, sm, sd, date, hr, rfl⟩ := seeded_iff.mp he
      have hnone : sy ++ sm ++ sd = [] := by
        by_contra hsigned
        exact h ⟨sy, sm, sd, date, hr, hsigned⟩
      simp only [List.append_eq_nil_iff] at hnone
      obtain ⟨⟨rfl, rfl⟩, rfl⟩ := hnone
      exact hr.accepted
    constructor
    · exact hplain
    · intro assets asset hasset hs e he strike hk style started now
      have hbook : (fromConfig B started assets).hasBook ⟨asset.symbol, e, strike, style⟩ = true :=
        fromConfig_hasBook hasset rfl hk he hs
      have hmem : e ∈ (fromConfig B started assets).expirations asset.symbol := by
        simp only [Catalog.hasBook, Bool.and_eq_true] at hbook
        simpa [Catalog.getExpiration] using hbook.1.2
      have hseeded : AllSeeded { fromConfig B started assets with now := now } :=
        fromConfig_seeded started assets
      exact locate_of_find (a := ⟨asset.symbol, e, strike, style⟩)
        (hseeded.found hd hmem (hplain e he)) hbook
    · intro hlen hdigits
      constructor
      · intro hsome
        obtain ⟨e, he⟩ := Option.isSome_iff_exists.mp hsome
        exact ⟨e, hplain e he⟩
      · rintro ⟨e, he⟩
        obtain ⟨date, hr, rfl⟩ := readsAsDate_of_accepted hlen hdigits he
        rw [seeded_iff.mpr ⟨[], [], [], date, hr, rfl⟩]
        rfl

/-- A book for the ninth of March, which no request can name the way the configuration did. -/
theorem signed_date_not_reached : ¬ ∀ s, SeedsAlike ReferenceBook ℚ s := by
  intro h
  have hseeds : AppState.parseExpiration "2024+3+9" = some (.dateTime ⟨19791, 57600⟩) := by
    decide +kernel
  have hrequest : parseExpiration "2024+3+9" ≠ .ok (.dateTime ⟨19791, 57600⟩) := by
    decide +kernel
  exact hrequest ((h "2024+3+9").same _ hseeds)

theorem seedsAlike_signed : SeedsAlike ReferenceBook ℚ "+0240329" ↔ ¬ SignedDate "+0240329" :=
  seedsAlike_iff ReferenceBook.dated "+0240329"

end Result
end OptionChainBackend
