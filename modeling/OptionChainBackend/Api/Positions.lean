import OptionChainBackend.Api.State

/-!
The arithmetic of one position against exact integers: what a fill adds, the size-weighted entry
price, and the realized P&L of what it closes. The code saturates at the limits of its types; it
reckons wrongly only with a quantity from 2^63 on, and with prices from 2^127 on.
-/
namespace OptionChainBackend
open Foundation Upstream MarketMaker

/-- A quantity from the taker's side. -/
def signed (side : Side) (quantity : ℕ) : ℤ :=
  match side with
  | .buy => quantity
  | .sell => -quantity

theorem natAbs_signed (side : Side) (q : ℕ) : (signed side q).natAbs = q := by
  cases side <;> simp [signed]

/-- The nearest value of type `i64`. -/
def clampI64 (n : ℤ) : ℤ := max i64Min (min i64Max n)

theorem clampI64_of_mem {n : ℤ} (h0 : i64Min ≤ n) (h1 : n ≤ i64Max) : clampI64 n = n := by
  unfold clampI64
  omega

theorem saturatingAdd_eq (a b : ℤ) : saturatingAdd a b = clampI64 (a + b) := rfl

namespace MarketData

theorem fillQuantity_eq {side : Side} {q : ℕ} (h : q < 2 ^ 63) :
    fillQuantity side q = signed side q := by
  have hq : i64 q = q := by
    apply Int.bmod_eq_of_le <;> omega
  have hneg : i64 (-q) = -q := by
    apply Int.bmod_eq_of_le <;> omega
  cases side with
  | buy => exact hq
  | sell =>
    show i64 (-i64 q) = -q
    rw [hq, hneg]

end MarketData

namespace PositionInfo
variable {pos : PositionInfo} {q : ℤ} {price : ℕ}

/-- The values fit the types of the fields. -/
structure Typed (pos : PositionInfo) : Prop where
  quantity : i64Min ≤ pos.quantity ∧ pos.quantity ≤ i64Max
  averagePrice : pos.averagePrice < 2 ^ 128
  realizedPnl : i64Min ≤ pos.realizedPnl ∧ pos.realizedPnl ≤ i64Max

/-- A fill that opens the position or adds to it; any other fill is set against it. -/
def Adds (pos : PositionInfo) (q : ℤ) : Prop :=
  sameDirection pos.quantity q = true ∨ pos.quantity = 0

instance : Decidable (pos.Adds q) := inferInstanceAs (Decidable (_ ∨ _))

/-- What is paid for the position and for a fill that adds to it. -/
def cost (pos : PositionInfo) (q : ℤ) (price : ℕ) : ℕ :=
  pos.averagePrice * pos.quantity.natAbs + price * q.natAbs

/-- The mean entry price rounded down, or the largest price when the cost is beyond `u128`. -/
def weightedMean (pos : PositionInfo) (q : ℤ) (price : ℕ) : ℕ :=
  if pos.quantity.natAbs + q.natAbs = 0 then pos.averagePrice
  else if pos.cost q price < 2 ^ 128 then
    pos.cost q price / (pos.quantity.natAbs + q.natAbs)
  else 2 ^ 128 - 1

/-- The realized P&L of a fill: each closed unit gains the price difference, with the sign of the
position. -/
def exactRealized (pos : PositionInfo) (q : ℤ) (price : ℕ) : ℤ :=
  if pos.Adds q then 0
  else ((price : ℤ) - pos.averagePrice) * (min q.natAbs pos.quantity.natAbs : ℕ) *
    pos.quantity.sign

/-- The fill moves the price in favour of the position. -/
def Gains (pos : PositionInfo) (price : ℕ) : Prop :=
  (0 < pos.quantity ∧ pos.averagePrice < price) ∨ (¬ 0 < pos.quantity ∧ price < pos.averagePrice)

instance : Decidable (pos.Gains price) := inferInstanceAs (Decidable (_ ∨ _))

theorem checkedU128_some {n : ℕ} (h : n < 2 ^ 128) : checkedU128 n = some n := if_pos h

theorem checkedU128_none {n : ℕ} (h : ¬ n < 2 ^ 128) : checkedU128 n = none := if_neg h

theorem checkedI128_some {n : ℤ} (h0 : -2 ^ 127 ≤ n) (h1 : n < 2 ^ 127) :
    checkedI128 n = some n := if_pos ⟨h0, h1⟩

theorem checkedI128_none {n : ℤ} (h : 2 ^ 127 ≤ n) : checkedI128 n = none :=
  if_neg fun hn => absurd hn.2 (not_lt.mpr h)

theorem averageAfter_eq : pos.averageAfter q price = pos.weightedMean q price := by
  unfold averageAfter weightedMean cost
  by_cases hz : pos.quantity.natAbs + q.natAbs = 0
  · rw [if_neg (by omega), if_pos hz]
  · rw [if_pos (by omega), if_neg hz]
    by_cases hsum : pos.averagePrice * pos.quantity.natAbs + price * q.natAbs < 2 ^ 128
    · have hold : pos.averagePrice * pos.quantity.natAbs < 2 ^ 128 := by omega
      have hnew : price * q.natAbs < 2 ^ 128 := by omega
      rw [checkedU128_some hold, checkedU128_some hnew, if_pos hsum]
      simp only [Option.bind_eq_bind, Option.bind_some, checkedU128_some hsum]
    · rw [if_neg hsum]
      by_cases hold : pos.averagePrice * pos.quantity.natAbs < 2 ^ 128
      · rw [checkedU128_some hold]
        by_cases hnew : price * q.natAbs < 2 ^ 128
        · rw [checkedU128_some hnew]
          simp only [Option.bind_eq_bind, Option.bind_some, checkedU128_none hsum]
        · rw [checkedU128_none hnew]
          rfl
      · rw [checkedU128_none hold]
        rfl

section Realized

/-- What the limits of `i64` make of a product with the sign of `signed`. -/
theorem checked_product {signed : ℤ} {close : ℕ} {gains : Prop} [Decidable gains]
    (hg : signed ≠ 0 → (gains ↔ 0 < signed)) :
    (match (do
      let value ← checkedI128 (signed * (close : ℤ))
      if i64Min ≤ value ∧ value ≤ i64Max then some value else none) with
    | some value => value
    | none => if gains then i64Max else i64Min) = clampI64 (signed * (close : ℤ)) := by
  have hclose : (0 : ℤ) ≤ close := Int.natCast_nonneg close
  by_cases hin : i64Min ≤ signed * (close : ℤ) ∧ signed * (close : ℤ) ≤ i64Max
  · have h0 : -2 ^ 127 ≤ signed * (close : ℤ) := by
      have hmin := hin.1
      unfold i64Min at hmin
      omega
    have h1 : signed * (close : ℤ) < 2 ^ 127 := by
      have hmax := hin.2
      unfold i64Max at hmax
      omega
    rw [checkedI128_some h0 h1]
    simp only [Option.bind_eq_bind, Option.bind_some, if_pos hin]
    exact (clampI64_of_mem hin.1 hin.2).symm
  · have hnone : (do
        let value ← checkedI128 (signed * (close : ℤ))
        if i64Min ≤ value ∧ value ≤ i64Max then some value else none) = none := by
      unfold checkedI128
      split_ifs
      · simp only [Option.bind_eq_bind, Option.bind_some, if_neg hin]
      · rfl
    rw [hnone]
    dsimp only
    rcases lt_trichotomy signed 0 with hneg | hzero | hpos
    · have hle : signed * (close : ℤ) ≤ 0 := Int.mul_nonpos_of_nonpos_of_nonneg hneg.le hclose
      have hno : ¬ gains := fun h => absurd ((hg hneg.ne).mp h) (not_lt.mpr hneg.le)
      rw [if_neg hno]
      unfold clampI64
      unfold i64Min i64Max at hin ⊢
      omega
    · rw [hzero, Int.zero_mul] at hin
      unfold i64Min i64Max at hin
      omega
    · have hge : 0 ≤ signed * (close : ℤ) := Int.mul_nonneg hpos.le hclose
      rw [if_pos ((hg hpos.ne').mpr hpos)]
      unfold clampI64
      unfold i64Min i64Max at hin ⊢
      omega

/-- With prices in `i128` the realized P&L is the exact one, clamped. -/
theorem realizedOn_of_narrow (hq : ¬ pos.Adds q) (hp : price < 2 ^ 127)
    (ha : pos.averagePrice < 2 ^ 127) :
    pos.realizedOn q price = clampI64 (pos.exactRealized q price) := by
  have hprice : checkedI128 (price : ℤ) = some (price : ℤ) := checkedI128_some (by omega) (by omega)
  have haverage : checkedI128 (pos.averagePrice : ℤ) = some (pos.averagePrice : ℤ) :=
    checkedI128_some (by omega) (by omega)
  have hdiff : checkedI128 ((price : ℤ) - pos.averagePrice) =
      some ((price : ℤ) - pos.averagePrice) := checkedI128_some (by omega) (by omega)
  have hneg : checkedI128 (-((price : ℤ) - pos.averagePrice)) =
      some (-((price : ℤ) - pos.averagePrice)) := checkedI128_some (by omega) (by omega)
  have hproduct := fun signed hg =>
    @checked_product signed (min q.natAbs pos.quantity.natAbs) (pos.Gains price) _ hg
  have hopen : pos.quantity ≠ 0 := fun h => hq (.inr h)
  unfold exactRealized
  rw [if_neg hq]
  -- the bounds of `i128` are kept from being computed: the check is an unknown function
  suffices hall : ∀ f, f = @realizedOn → f pos q price = clampI64 (((price : ℤ) -
      pos.averagePrice) * (min q.natAbs pos.quantity.natAbs : ℕ) * pos.quantity.sign) from
    hall _ rfl
  obtain ⟨check, hcheck⟩ : ∃ check, check = checkedI128 := ⟨_, rfl⟩
  rw [← hcheck] at hprice haverage hdiff hneg hproduct
  delta realizedOn
  rw [← hcheck]
  rintro f rfl
  beta_reduce
  extract_lets close finish exact
  rcases lt_or_gt_of_ne hopen with hshort | hlong
  · have hexact : exact = finish (-((price : ℤ) - pos.averagePrice)) := by
      simp only [exact, hprice, haverage, hdiff, hneg, Option.bind_eq_bind, Option.bind_some,
        if_neg (not_lt.mpr hshort.le)]
    rw [hexact, Int.sign_eq_neg_one_of_neg hshort]
    have hsign := hproduct (-((price : ℤ) - pos.averagePrice)) (by
      unfold Gains
      omega)
    rw [show ((price : ℤ) - pos.averagePrice) * (min q.natAbs pos.quantity.natAbs : ℕ) * -1 =
      -((price : ℤ) - pos.averagePrice) * (min q.natAbs pos.quantity.natAbs : ℕ) by ring]
    rw [← hsign, Nat.cast_min]
    rfl
  · have hexact : exact = finish ((price : ℤ) - pos.averagePrice) := by
      simp only [exact, hprice, haverage, hdiff, Option.bind_eq_bind, Option.bind_some,
        if_pos hlong]
    rw [hexact, Int.sign_eq_one_of_pos hlong, Int.mul_one]
    have hsign := hproduct ((price : ℤ) - pos.averagePrice) (by
      unfold Gains
      omega)
    rw [← hsign, Nat.cast_min]
    rfl

/-- A price beyond `i128` leaves only the sign. -/
theorem realizedOn_of_wide (h : ¬ (price < 2 ^ 127 ∧ pos.averagePrice < 2 ^ 127)) :
    pos.realizedOn q price = if pos.Gains price then i64Max else i64Min := by
  have hnone : checkedI128 (price : ℤ) = none ∨ checkedI128 (price : ℤ) = some (price : ℤ) ∧
      checkedI128 (pos.averagePrice : ℤ) = none := by
    by_cases hp : price < 2 ^ 127
    · have ha : ¬ pos.averagePrice < 2 ^ 127 := fun ha => h ⟨hp, ha⟩
      exact .inr ⟨checkedI128_some (by omega) (by omega), checkedI128_none (by omega)⟩
    · exact .inl (checkedI128_none (by omega))
  suffices hall : ∀ f, f = @realizedOn →
      f pos q price = if pos.Gains price then i64Max else i64Min from hall _ rfl
  obtain ⟨check, hcheck⟩ : ∃ check, check = checkedI128 := ⟨_, rfl⟩
  rw [← hcheck] at hnone
  delta realizedOn
  rw [← hcheck]
  rintro f rfl
  beta_reduce
  extract_lets close finish exact
  have hexact : exact = none := by
    rcases hnone with hp | ⟨hp, ha⟩
    · simp only [exact, hp, Option.bind_eq_bind, Option.bind_none]
    · simp only [exact, hp, ha, Option.bind_eq_bind, Option.bind_some, Option.bind_none]
  rw [hexact]
  rfl

end Realized

section Limits

/-- The P&L that saturation leaves is right all the same: what is closed is worth no less than
the limit of `i64`, or nothing is closed and the sum is already at the limit. -/
def AtLimit (pos : PositionInfo) (q : ℤ) (price : ℕ) : Prop :=
  if q = 0 then pos.realizedPnl = if pos.Gains price then i64Max else i64Min
  else i64Max ≤ pos.exactRealized q price ∨ pos.exactRealized q price ≤ i64Min

/-- The prices fit `i128`, or saturation does no harm. -/
def Reckoned (pos : PositionInfo) (q : ℤ) (price : ℕ) : Prop :=
  pos.Adds q ∨ (price < 2 ^ 127 ∧ pos.averagePrice < 2 ^ 127) ∨ pos.AtLimit q price

/-- A fill that closes a part of the position, all of it, or more than it. -/
def Reduces (pos : PositionInfo) (q : ℤ) : Prop := ¬ pos.Adds q ∧ q ≠ 0

/-- `r` is what exact integers make of the fill, up to the limits of the fields. -/
structure UpdatesExactly (pos : PositionInfo) (q : ℤ) (price : ℕ) (r : PositionInfo × ℤ) :
    Prop where
  quantity : r.1.quantity = clampI64 (pos.quantity + q)
  returned : pos.Reduces q → r.2 = clampI64 (pos.exactRealized q price)
  realizedPnl : r.1.realizedPnl =
    clampI64 (pos.realizedPnl + clampI64 (pos.exactRealized q price))
  averagePrice : r.1.averagePrice = if pos.Adds q then pos.weightedMean q price
    else if pos.quantity.natAbs < q.natAbs then price else pos.averagePrice

theorem exactRealized_adds (h : pos.Adds q) : pos.exactRealized q price = 0 := if_pos h

theorem update_adds (h : pos.Adds q) (t : ℕ) : pos.update q price t =
    ({ pos with
      averagePrice := pos.weightedMean q price
      quantity := clampI64 (pos.quantity + q)
      updatedAtMs := t }, 0) := by
  have hcond : (sameDirection pos.quantity q || decide (pos.quantity = 0)) = true := by
    simpa [Adds] using h
  unfold update
  rw [if_pos hcond, averageAfter_eq, saturatingAdd_eq]

theorem update_closes (h : ¬ pos.Adds q) (t : ℕ) : pos.update q price t =
    ({ pos with
      realizedPnl := clampI64 (pos.realizedPnl + pos.realizedOn q price)
      quantity := clampI64 (pos.quantity + q)
      averagePrice := if sameDirection (clampI64 (pos.quantity + q)) q then price
        else pos.averagePrice
      updatedAtMs := t }, pos.realizedOn q price) := by
  have hcond : ¬ (sameDirection pos.quantity q || decide (pos.quantity = 0)) = true := by
    simpa [Adds] using h
  unfold update
  rw [if_neg hcond]
  rfl

/-- The realized P&L has the sign of the price's move against the position. -/
theorem exactRealized_sign (h : ¬ pos.Adds q) :
    (0 < pos.exactRealized q price → pos.Gains price) ∧
    (pos.exactRealized q price < 0 → ¬ pos.Gains price) := by
  have hopen : pos.quantity ≠ 0 := fun hz => h (.inr hz)
  have hclose : (0 : ℤ) ≤ (min q.natAbs pos.quantity.natAbs : ℕ) := Int.natCast_nonneg _
  unfold exactRealized Gains
  rw [if_neg h]
  rcases lt_or_gt_of_ne hopen with hshort | hlong
  · rw [Int.sign_eq_neg_one_of_neg hshort, Int.mul_neg_one]
    constructor
    · intro hgain
      by_contra hno
      have hdiff : 0 ≤ (price : ℤ) - pos.averagePrice := by omega
      have hprod := Int.mul_nonneg hdiff hclose
      omega
    · intro hloss hgain
      have hdiff : (price : ℤ) - pos.averagePrice ≤ 0 := by omega
      have hprod := Int.mul_nonpos_of_nonpos_of_nonneg hdiff hclose
      omega
  · rw [Int.sign_eq_one_of_pos hlong, Int.mul_one]
    constructor
    · intro hgain
      by_contra hno
      have hdiff : (price : ℤ) - pos.averagePrice ≤ 0 := by omega
      have hprod := Int.mul_nonpos_of_nonpos_of_nonneg hdiff hclose
      omega
    · intro hloss hgain
      have hdiff : 0 ≤ (price : ℤ) - pos.averagePrice := by omega
      have hprod := Int.mul_nonneg hdiff hclose
      omega

theorem not_adds_iff : ¬ pos.Adds q ↔ ¬ (0 < pos.quantity ∧ 0 < q) ∧
    ¬ (pos.quantity < 0 ∧ q < 0) ∧ pos.quantity ≠ 0 := by
  simp [Adds, sameDirection, not_or, and_assoc]

/-- A fill set against the position flips it exactly when it is the larger of the two. -/
theorem flips_iff (h : ¬ pos.Adds q) :
    sameDirection (pos.quantity + q) q = true ↔ pos.quantity.natAbs < q.natAbs := by
  have hagainst := not_adds_iff.mp h
  simp only [sameDirection, Bool.or_eq_true, decide_eq_true_iff]
  omega

/-- Set against the position, a fill within `i64` leaves a quantity within `i64`. -/
theorem clampI64_against (ht : pos.Typed) (hq : i64Min ≤ q ∧ q ≤ i64Max) (h : ¬ pos.Adds q) :
    clampI64 (pos.quantity + q) = pos.quantity + q := by
  have hquant := ht.quantity
  have hagainst := not_adds_iff.mp h
  apply clampI64_of_mem <;> omega

theorem updatesExactly_adds (h : pos.Adds q) (ht : pos.Typed) (t : ℕ) :
    pos.UpdatesExactly q price (pos.update q price t) := by
  have hzero : clampI64 0 = 0 := by decide
  have hpnl : clampI64 pos.realizedPnl = pos.realizedPnl :=
    clampI64_of_mem ht.realizedPnl.1 ht.realizedPnl.2
  constructor
  · rw [update_adds h]
  · exact fun hr => absurd h hr.1
  · rw [update_adds h, exactRealized_adds h, hzero, Int.add_zero, hpnl]
  · rw [update_adds h, if_pos h]

/-- Set against the position, the fill is exact as soon as its realized P&L is. -/
theorem updatesExactly_closes (h : ¬ pos.Adds q) (ht : pos.Typed)
    (hq : i64Min ≤ q ∧ q ≤ i64Max) (t : ℕ) :
    pos.UpdatesExactly q price (pos.update q price t) ↔
      (q ≠ 0 → pos.realizedOn q price = clampI64 (pos.exactRealized q price)) ∧
      clampI64 (pos.realizedPnl + pos.realizedOn q price) =
        clampI64 (pos.realizedPnl + clampI64 (pos.exactRealized q price)) := by
  constructor
  · intro hu
    have hret := hu.returned
    have hpnl := hu.realizedPnl
    rw [update_closes h] at hret hpnl
    dsimp only at hret hpnl
    exact ⟨fun hne => hret ⟨h, hne⟩, hpnl⟩
  · rintro ⟨hret, hpnl⟩
    constructor
    · rw [update_closes h]
    · intro hr
      rw [update_closes h]
      dsimp only
      exact hret hr.2
    · rw [update_closes h]
      dsimp only
      exact hpnl
    · rw [update_closes h, if_neg h]
      simp only [clampI64_against ht hq h, flips_iff h]

/-- A fill within `i64` updates the position exactly when it is reckoned without harm. -/
theorem updatesExactly_iff (ht : pos.Typed) (hq : i64Min ≤ q ∧ q ≤ i64Max) (t : ℕ) :
    pos.UpdatesExactly q price (pos.update q price t) ↔ pos.Reckoned q price := by
  by_cases ha : pos.Adds q
  · exact iff_of_true (updatesExactly_adds ha ht t) (.inl ha)
  rw [updatesExactly_closes ha ht hq]
  by_cases hn : price < 2 ^ 127 ∧ pos.averagePrice < 2 ^ 127
  · have hreal := realizedOn_of_narrow ha hn.1 hn.2
    rw [hreal]
    exact iff_of_true ⟨fun _ => rfl, rfl⟩ (.inr (.inl hn))
  have hpnl := ht.realizedPnl
  have hsign : (0 < pos.exactRealized q price → pos.Gains price) ∧
      (pos.exactRealized q price < 0 → ¬ pos.Gains price) := exactRealized_sign ha
  have hreck : pos.Reckoned q price ↔ pos.AtLimit q price := by
    simp only [Reckoned, ha, hn, false_or]
  rw [hreck, realizedOn_of_wide hn]
  unfold AtLimit
  by_cases hz : q = 0
  · have hexact : pos.exactRealized q price = 0 := by
      unfold exactRealized
      rw [if_neg ha, hz]
      simp
    rw [if_pos hz, hexact]
    simp only [hz, ne_eq, not_true_eq_false, false_implies, true_and]
    unfold clampI64
    unfold i64Min i64Max at *
    split_ifs <;> omega
  · rw [if_neg hz]
    simp only [ne_eq, hz, not_false_eq_true, true_implies]
    unfold clampI64
    unfold i64Min i64Max at *
    by_cases hg : pos.Gains price
    · have hpos : 0 ≤ pos.exactRealized q price := by
        by_contra hneg
        exact hsign.2 (not_le.mp hneg) hg
      rw [if_pos hg]
      omega
    · have hneg : pos.exactRealized q price ≤ 0 := by
        by_contra hpos
        exact hg (hsign.1 (not_le.mp hpos))
      rw [if_neg hg]
      omega

theorem clampI64_bounds (n : ℤ) : i64Min ≤ clampI64 n ∧ clampI64 n ≤ i64Max := by
  unfold clampI64
  unfold i64Min i64Max
  omega

theorem weightedMean_lt (ht : pos.Typed) : pos.weightedMean q price < 2 ^ 128 := by
  unfold weightedMean
  split_ifs with hz hc
  · exact ht.averagePrice
  · exact (Nat.div_le_self _ _).trans_lt hc
  · norm_num

/-- Every update leaves values of the types of the fields. -/
theorem Typed.update (ht : pos.Typed) (hp : price < 2 ^ 128) (t : ℕ) :
    (pos.update q price t).1.Typed := by
  by_cases ha : pos.Adds q
  · rw [update_adds ha]
    exact ⟨clampI64_bounds _, weightedMean_lt ht, ht.realizedPnl⟩
  · rw [update_closes ha]
    refine ⟨clampI64_bounds _, ?_, clampI64_bounds _⟩
    dsimp only
    split_ifs
    · exact hp
    · exact ht.averagePrice

end Limits
end PositionInfo

namespace MarketData
open PositionInfo
variable {m : MarketData} {symbol : String} {side : Side} {quantity price : ℕ}

theorem fillQuantity_exact (h : i64 quantity = quantity) : quantity < 2 ^ 63 := by
  have hlt := i64_lt (quantity : ℤ)
  omega

/-- A fill moves the entry of its symbol as exact integers would, and leaves the others alone. -/
structure FilledExactly (m : MarketData) (symbol underlying : String) (side : Side)
    (quantity price timestampMs : ℕ) : Prop where
  /-- Neither the cast of the quantity nor its negation overflows. -/
  casts : i64 quantity = quantity ∧ (side = .sell → i64 (-i64 quantity) = -i64 quantity)
  opened : m.positions.lookup symbol = none →
    (m.updatePositionOnFill symbol underlying side quantity price timestampMs).positions.lookup
      symbol = some (.new symbol underlying (clampI64 (signed side quantity)) price timestampMs)
  updated : ∀ pos, m.positions.lookup symbol = some pos → ∃ r : PositionInfo × ℤ,
    (m.updatePositionOnFill symbol underlying side quantity price timestampMs).positions.lookup
      symbol = some r.1 ∧ r.1.Typed ∧
    r = pos.update (fillQuantity side quantity) price timestampMs ∧
    pos.UpdatesExactly (signed side quantity) price r
  others : ∀ key, key ≠ symbol →
    (m.updatePositionOnFill symbol underlying side quantity price timestampMs).positions.lookup
      key = m.positions.lookup key

theorem signed_bounds (h : quantity < 2 ^ 63) :
    i64Min ≤ signed side quantity ∧ signed side quantity ≤ i64Max := by
  unfold i64Min i64Max
  cases side with
  | buy =>
    show -2 ^ 63 ≤ (quantity : ℤ) ∧ (quantity : ℤ) ≤ 2 ^ 63 - 1
    omega
  | sell =>
    show -2 ^ 63 ≤ -(quantity : ℤ) ∧ -(quantity : ℤ) ≤ 2 ^ 63 - 1
    omega

/-- A fill is booked exactly when its quantity fits `i64` and its price does no harm. -/
theorem filled_exactly_iff (underlying : String) (timestampMs : ℕ) (hprice : price < 2 ^ 128)
    (htyped : ∀ pos, m.positions.lookup symbol = some pos → pos.Typed) :
    m.FilledExactly symbol underlying side quantity price timestampMs ↔ quantity < 2 ^ 63 ∧
      ∀ pos, m.positions.lookup symbol = some pos →
        pos.Reckoned (signed side quantity) price := by
  constructor
  · intro h
    have hq := fillQuantity_exact h.casts.1
    refine ⟨hq, fun pos hpos => ?_⟩
    obtain ⟨r, -, -, hr, hexact⟩ := h.updated pos hpos
    rw [hr, fillQuantity_eq hq] at hexact
    exact (updatesExactly_iff (htyped pos hpos) (signed_bounds hq) timestampMs).mp hexact
  · rintro ⟨hq, hreck⟩
    have hfill : fillQuantity side quantity = signed side quantity := fillQuantity_eq hq
    have hcast : i64 quantity = quantity := by
      apply Int.bmod_eq_of_le <;> omega
    constructor
    · refine ⟨hcast, fun _ => ?_⟩
      rw [hcast]
      apply Int.bmod_eq_of_le <;> omega
    · intro hnone
      have hclamp : i64Min ≤ signed side quantity ∧ signed side quantity ≤ i64Max :=
        signed_bounds hq
      rw [clampI64_of_mem hclamp.1 hclamp.2]
      simp [updatePositionOnFill, hnone, hfill]
    · intro pos hpos
      refine ⟨pos.update (signed side quantity) price timestampMs, ?_,
        (htyped pos hpos).update hprice timestampMs, by rw [hfill], ?_⟩
      · simp [updatePositionOnFill, hpos, hfill]
      · exact (updatesExactly_iff (htyped pos hpos) (signed_bounds hq) timestampMs).mpr
          (hreck pos hpos)
    · intro key hkey
      simp [updatePositionOnFill, hkey]

section Reference

/-- Long five units bought at 100. -/
def longFive : MarketData :=
  ⟨(∅ : Table String PositionInfo).insert "BTC-30-10000-C"
    (.new "BTC-30-10000-C" "BTC" 5 100 0), ∅, ∅, ∅⟩

/-- A buy of 2^63 units is booked as a sale. -/
theorem large_buy_wraps : ¬ ∀ (m : MarketData) (symbol underlying : String) (side : Side)
    (quantity price timestampMs : ℕ), quantity < 2 ^ 64 → price < 2 ^ 128 →
    (∀ pos, m.positions.lookup symbol = some pos → pos.Typed) →
    m.FilledExactly symbol underlying side quantity price timestampMs := by
  intro h
  have hempty : ∀ pos : PositionInfo, (∅ : Table String PositionInfo).lookup "X" = some pos →
      pos.Typed := by
    intro pos hpos
    simp at hpos
  have hexact := (h ⟨∅, ∅, ∅, ∅⟩ "X" "BTC" .buy (2 ^ 63) 100 0 (by norm_num) (by norm_num)
    hempty).casts.1
  exact absurd hexact (by decide +kernel)

theorem filled_exactly_reduce :
    longFive.FilledExactly "BTC-30-10000-C" "BTC" .sell 3 120 7 := by
  have hpos : ∀ pos, longFive.positions.lookup "BTC-30-10000-C" = some pos →
      pos = .new "BTC-30-10000-C" "BTC" 5 100 0 := by
    intro pos hlookup
    unfold longFive at hlookup
    rw [AList.lookup_insert] at hlookup
    exact (Option.some.inj hlookup).symm
  apply (filled_exactly_iff "BTC" 7 (by norm_num) _).mpr
  · refine ⟨by norm_num, fun pos hlookup => ?_⟩
    rw [hpos pos hlookup]
    exact .inr (.inl ⟨by norm_num, by norm_num [PositionInfo.new]⟩)
  · intro pos hlookup
    rw [hpos pos hlookup]
    constructor <;> norm_num [PositionInfo.new, i64Min, i64Max]

end Reference
end MarketData
end OptionChainBackend
