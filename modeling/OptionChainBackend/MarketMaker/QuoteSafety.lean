import Mathlib.Algebra.Order.Floor.Semifield
import Mathlib.Data.Rat.Floor
import Mathlib.Tactic.Linarith
import Mathlib.Tactic.Ring
import OptionChainBackend.MarketMaker.Quoter

/-!
Quote safety. Over exact rationals a quote is two-sided and brackets the theoretical value as
long as the legs stay within `i64`; the casts of larger values turn negative.
-/
namespace OptionChainBackend
open F64

/-- Truncation toward zero, one sign at a time. -/
theorem truncate_eq (x : ℚ) : truncate x = (⌊x⌋₊ : ℤ) - ⌊-x⌋₊ := by
  unfold truncate
  split_ifs with h
  · have hneg : ⌊-x⌋₊ = 0 := Nat.floor_of_nonpos (neg_nonpos.mpr h)
    simp [hneg, Int.natCast_floor_eq_floor h]
  · have hx : 0 ≤ -x := by linarith
    have hzero : ⌊x⌋₊ = 0 := Nat.floor_of_nonpos (by linarith)
    simp [hzero, Int.natCast_floor_eq_floor hx, Int.floor_neg]

theorem toU64_eq (x : ℚ) : toU64 x = min ⌊x⌋₊ (2 ^ 64 - 1) := by
  show min (truncate x).toNat (2 ^ 64 - 1) = _
  have h : (truncate x).toNat = ⌊x⌋₊ := by
    rw [truncate_eq]
    rcases le_total 0 x with hx | hx
    · have hneg : ⌊-x⌋₊ = 0 := Nat.floor_of_nonpos (neg_nonpos.mpr hx)
      omega
    · have hzero : ⌊x⌋₊ = 0 := Nat.floor_of_nonpos hx
      omega
  rw [h]

theorem i64_of_mem {n : ℤ} (h0 : -2 ^ 63 ≤ n) (h1 : n < 2 ^ 63) : i64 n = n := by
  apply Int.bmod_eq_of_le <;> omega

theorem i64_ge (n : ℤ) : -2 ^ 63 ≤ i64 n := by
  have h : -((2 ^ 64 : ℕ) / 2 : ℤ) ≤ Int.bmod n (2 ^ 64) := Int.le_bmod (by norm_num)
  unfold i64
  omega

namespace MarketMaker

/-- The ranges the engine clamps its parameters to. -/
structure QuoteInput.Clamped (input : QuoteInput ℚ) : Prop where
  spread : 1 / 10 ≤ input.spreadMultiplier ∧ input.spreadMultiplier ≤ 10
  size : 0 ≤ input.sizeScalar ∧ input.sizeScalar ≤ 1
  skew : -1 ≤ input.directionalSkew ∧ input.directionalSkew ≤ 1

section Exact
variable (self : Quoter ℚ) (now : ℕ) (input : QuoteInput ℚ)

/-- What the pricer says the option is worth, in dollars. -/
def Quoter.value : ℚ :=
  self.pricer.theoreticalValue now (input.spotCents / 100) (input.strikeCents / 100)
    input.expiration input.style input.iv

/-- Dollars in whole cents, to the nearest; nothing for a negative amount. -/
def centsOf (dollars : ℚ) : ℕ := ⌊dollars * 100 + 1 / 2⌋₊

/-- Half the spread in basis points. -/
def Quoter.spreadBps (multiplier : ℚ) : ℕ :=
  min ⌊self.baseSpreadBps * multiplier / 2⌋₊ (2 ^ 64 - 1)

/-- Half the spread around `theo` cents. -/
def Quoter.halfWidth (multiplier : ℚ) (theo : ℕ) : ℕ :=
  max (theo * self.spreadBps multiplier / 10000) 1

/-- The direction the skew moves a quote in. -/
def lean (style : OptionStyle) (skew : ℚ) : ℚ :=
  match style with
  | .call => skew
  | .put => -skew

/-- Both legs of the quote, before their floors, are values of `i64`. -/
def Quoter.Fits : Prop :=
  let theo := centsOf (self.value now input)
  let half := self.halfWidth input.spreadMultiplier theo
  let lift := lean input.style input.directionalSkew
  theo + half + ⌊half * lift / 2⌋₊ < 2 ^ 63 ∧ half + ⌊-(half * lift / 2)⌋₊ ≤ theo + 2 ^ 63

instance : Decidable (self.Fits now input) := by
  unfold Quoter.Fits
  infer_instance

end Exact

/-- The skew in cents, before it is mirrored for a put. -/
def skewAdjustment (half : ℕ) (skew : ℚ) : ℤ := toI64 ((half : ℚ) * skew * (1 / 2))

/-- No integer step of a quote wraps. -/
structure StepsExact (theo half : ℕ) (skew : ℚ) (style : OptionStyle) : Prop where
  theoCast : i64 theo = theo
  halfCast : i64 half = half
  mirrored : i64 (-skewAdjustment half skew) = -skewAdjustment half skew
  bid : i64 ((theo : ℤ) - half) = theo - half
  bidShifted : i64 ((theo : ℤ) - half + skewShift half skew style) =
    theo - half + skewShift half skew style
  ask : i64 ((theo : ℤ) + half) = theo + half
  askShifted : i64 ((theo : ℤ) + half + skewShift half skew style) =
    theo + half + skewShift half skew style
  aboveBid : i64 (bidCents theo half (skewShift half skew style) + 1) =
    bidCents theo half (skewShift half skew style) + 1
  bidUnsigned : (asU128 (bidCents theo half (skewShift half skew style)) : ℤ) =
    bidCents theo half (skewShift half skew style)
  askUnsigned : (asU128 (askCents theo half (skewShift half skew style)) : ℤ) =
    askCents theo half (skewShift half skew style)

/-- The quoter answers with a quote around `theo`, two-sided, sized, and reckoned exactly. -/
structure SafeQuote (quoter : Quoter ℚ) (input : QuoteInput ℚ) (theo : ℕ) (q : QuoteParams) :
    Prop where
  around : q.theoPrice = theo
  bid : 1 ≤ q.bidPrice
  crossed : q.bidPrice < q.askPrice
  sizes : 1 ≤ q.bidSize ∧ 1 ≤ q.askSize
  steps : StepsExact theo (quoter.halfSpreadCents theo input.spreadMultiplier) input.directionalSkew
    input.style
  brackets : 1 ≤ theo → q.bidPrice ≤ theo ∧ theo ≤ q.askPrice

def Quoter.QuotesSafely (self : Quoter ℚ) (now : ℕ) (input : QuoteInput ℚ) : Prop :=
  ∃ theo q, self.theoCents now input = some theo ∧ self.generateQuote now input = some q ∧
    SafeQuote self input theo q

section Casts
variable (self : Quoter ℚ) (now : ℕ) (input : QuoteInput ℚ) {half : ℕ} {skew : ℚ}

theorem theoCents_eq : self.theoCents now input =
    some (min (centsOf (self.value now input)) (2 ^ 64 - 1)) := by
  show some (toU64 (F64.round (self.value now input * 100))) = _
  congr 1
  rw [toU64_eq]
  congr 1
  generalize self.value now input = v
  show ⌊(if 0 ≤ v * 100 then ((⌊v * 100 + 1 / 2⌋ : ℤ) : ℚ) else (⌈v * 100 - 1 / 2⌉ : ℤ))⌋₊ = _
  unfold centsOf
  split_ifs with h
  · rw [← Int.natCast_floor_eq_floor (by linarith)]
    simp
  · have hround : ((⌈v * 100 - 1 / 2⌉ : ℤ) : ℚ) ≤ 0 := by
      have hceil : ⌈v * 100 - 1 / 2⌉ ≤ 0 := Int.ceil_le.mpr (by push_cast; linarith)
      exact_mod_cast hceil
    have hlow : v * 100 + 1 / 2 < 1 := by linarith
    rw [Nat.floor_of_nonpos hround, Nat.floor_eq_zero.mpr hlow]

theorem halfSpreadCents_eq (m : ℚ) (theo : ℕ) :
    self.halfSpreadCents theo m = min (self.halfWidth m theo) (2 ^ 64 - 1) := by
  show toU64 (Max.max (((theo : ℚ) * (toU64 ((self.baseSpreadBps : ℚ) * m / 2) : ℕ)) / 10000) 1) = _
  have hbps : toU64 ((self.baseSpreadBps : ℚ) * m / 2) = self.spreadBps m := toU64_eq _
  have hfloor : ⌊Max.max (((theo : ℚ) * self.spreadBps m) / 10000) 1⌋₊ = self.halfWidth m theo := by
    rw [Nat.floor_mono.map_max, Nat.floor_one]
    unfold Quoter.halfWidth
    congr 1
    have h := Nat.floor_div_eq_div (K := ℚ) (theo * self.spreadBps m) 10000
    push_cast at h
    exact h
  rw [hbps, toU64_eq, hfloor]

/-- The skew of a quote is at most half its half-spread, so it is never the least `i64`. -/
theorem skewAdjustment_eq (hhalf : half < 2 ^ 64) (hs : -1 ≤ skew ∧ skew ≤ 1) :
    skewAdjustment half skew = (⌊half * skew / 2⌋₊ : ℤ) - ⌊-(half * skew / 2)⌋₊ ∧
    ⌊half * skew / 2⌋₊ ≤ half / 2 ∧ ⌊-(half * skew / 2)⌋₊ ≤ half / 2 := by
  have hq : (0 : ℚ) ≤ half := Nat.cast_nonneg half
  have hcast : ((half / 2 : ℕ) : ℚ) = ⌊(half : ℚ) / 2⌋₊ := by
    rw [show (2 : ℚ) = (2 : ℕ) by norm_num, Nat.floor_div_eq_div]
  have hup : ⌊half * skew / 2⌋₊ ≤ half / 2 := by
    have h : ⌊half * skew / 2⌋₊ ≤ ⌊(half : ℚ) / 2⌋₊ := Nat.floor_mono (by nlinarith [hs.2])
    exact_mod_cast h.trans_eq (by exact_mod_cast hcast.symm)
  have hdown : ⌊-(half * skew / 2)⌋₊ ≤ half / 2 := by
    have h : ⌊-(half * skew / 2)⌋₊ ≤ ⌊(half : ℚ) / 2⌋₊ := Nat.floor_mono (by nlinarith [hs.1])
    exact_mod_cast h.trans_eq (by exact_mod_cast hcast.symm)
  refine ⟨?_, hup, hdown⟩
  show max (-2 ^ 63) (min (truncate ((half : ℚ) * skew * (1 / 2))) (2 ^ 63 - 1)) = _
  have hhalve : (half : ℚ) * skew * (1 / 2) = half * skew / 2 := by ring
  rw [hhalve, truncate_eq]
  omega

theorem skewShift_eq (style : OptionStyle) (hhalf : half < 2 ^ 64) (hs : -1 ≤ skew ∧ skew ≤ 1) :
    skewShift half skew style =
      (⌊half * lean style skew / 2⌋₊ : ℤ) - ⌊-(half * lean style skew / 2)⌋₊ := by
  obtain ⟨hadj, hup, hdown⟩ := skewAdjustment_eq hhalf hs
  cases style with
  | call => exact hadj
  | put =>
    show i64 (-skewAdjustment half skew) = _
    have hflip : (half : ℚ) * lean .put skew / 2 = -(half * skew / 2) := by
      show (half : ℚ) * -skew / 2 = _
      ring
    rw [hadj, hflip, neg_neg, i64_of_mem] <;> omega

/-- One direction of the skew is nothing, the other at most half the half-spread. -/
theorem lean_bounds (style : OptionStyle) (hs : -1 ≤ skew ∧ skew ≤ 1) (half : ℕ) :
    ⌊half * lean style skew / 2⌋₊ ≤ half / 2 ∧ ⌊-(half * lean style skew / 2)⌋₊ ≤ half / 2 ∧
    (⌊half * lean style skew / 2⌋₊ = 0 ∨ ⌊-(half * lean style skew / 2)⌋₊ = 0) := by
  have hl : -1 ≤ lean style skew ∧ lean style skew ≤ 1 := by
    cases style with
    | call => exact hs
    | put =>
      show -1 ≤ -skew ∧ -skew ≤ 1
      constructor <;> linarith [hs.1, hs.2]
  have hhalf : (0 : ℚ) ≤ half := Nat.cast_nonneg half
  have hfloor : ⌊(half : ℚ) / 2⌋₊ = half / 2 := Nat.floor_div_eq_div half 2
  rw [← hfloor]
  refine ⟨Nat.floor_mono (by nlinarith [hl.2]), Nat.floor_mono (by nlinarith [hl.1]), ?_⟩
  rcases le_total 0 (half * lean style skew / 2) with h | h
  · exact .inr (Nat.floor_of_nonpos (by linarith))
  · exact .inl (Nat.floor_of_nonpos h)

end Casts

theorem asU128_cast {n : ℤ} (h0 : 0 ≤ n) (h1 : n < 2 ^ 63) : (asU128 n : ℤ) = n := by
  rw [asU128_of_nonneg h0 h1]
  exact Int.toNat_of_nonneg h0

section Steps
variable {theo half : ℕ} {skew : ℚ} {style : OptionStyle}

/-- The two sums that may leave `i64` are the raised ask and the lowered bid. -/
def LegsFit (theo half : ℕ) (skew : ℚ) (style : OptionStyle) : Prop :=
  theo + half + ⌊half * lean style skew / 2⌋₊ < 2 ^ 63 ∧
    half + ⌊-(half * lean style skew / 2)⌋₊ ≤ theo + 2 ^ 63

/-- With legs within `i64` the prices are the exact ones. -/
theorem prices_of_fit (hhalf : 1 ≤ half) (hfit : LegsFit theo half skew style)
    (hs : -1 ≤ skew ∧ skew ≤ 1) :
    bidCents theo half (skewShift half skew style) =
      max ((theo : ℤ) - half + skewShift half skew style) 1 ∧
    askCents theo half (skewShift half skew style) =
      max ((theo : ℤ) + half + skewShift half skew style)
        (bidCents theo half (skewShift half skew style) + 1) := by
  obtain ⟨htop, hbottom⟩ := hfit
  have hshift := skewShift_eq style (by omega : half < 2 ^ 64) hs
  have hbounds := lean_bounds style hs half
  have htheo : i64 theo = theo := i64_of_mem (by omega) (by omega)
  have hhalf : i64 half = half := i64_of_mem (by omega) (by omega)
  have hbid : bidCents theo half (skewShift half skew style) =
      max ((theo : ℤ) - half + skewShift half skew style) 1 := by
    unfold bidCents
    rw [htheo, hhalf, @i64_of_mem ((theo : ℤ) - half) (by omega) (by omega),
      i64_of_mem (by omega) (by omega)]
  have hask : askCents theo half (skewShift half skew style) =
      max ((theo : ℤ) + half + skewShift half skew style)
        (bidCents theo half (skewShift half skew style) + 1) := by
    unfold askCents
    rw [htheo, hhalf, @i64_of_mem ((theo : ℤ) + half) (by omega) (by omega),
      i64_of_mem (by omega) (by omega), i64_of_mem (by omega) (by omega)]
  exact ⟨hbid, hask⟩

/-- The exact prices are positive, uncrossed and around the theoretical value. -/
theorem prices_bracket (hhalf : 1 ≤ half) (hfit : LegsFit theo half skew style)
    (hs : -1 ≤ skew ∧ skew ≤ 1) {bid ask : ℤ}
    (hbid : bid = bidCents theo half (skewShift half skew style))
    (hask : ask = askCents theo half (skewShift half skew style)) :
    1 ≤ bid ∧ bid < ask ∧ ask < 2 ^ 63 ∧ (1 ≤ theo → bid ≤ theo ∧ (theo : ℤ) ≤ ask) := by
  obtain ⟨hb, ha⟩ := prices_of_fit hhalf hfit hs
  rw [← hbid, ← hask] at ha
  rw [← hbid] at hb
  obtain ⟨htop, hbottom⟩ := hfit
  have hshift := skewShift_eq style (by omega : half < 2 ^ 64) hs
  have hbounds := lean_bounds style hs half
  omega

theorem stepsExact_of_fit (hhalf : 1 ≤ half) (hfit : LegsFit theo half skew style)
    (hs : -1 ≤ skew ∧ skew ≤ 1) : StepsExact theo half skew style := by
  obtain ⟨hb, hlt, ha, -⟩ := prices_bracket hhalf hfit hs rfl rfl
  obtain ⟨htop, hbottom⟩ := hfit
  have hlarge : half < 2 ^ 64 := by omega
  have hshift := skewShift_eq style hlarge hs
  have hbounds := lean_bounds style hs half
  have hadj := skewAdjustment_eq hlarge hs
  constructor
  case bidUnsigned => exact asU128_cast (by omega) (by omega)
  case askUnsigned => exact asU128_cast (by omega) (by omega)
  all_goals exact i64_of_mem (by omega) (by omega)

theorem fit_of_stepsExact (h : StepsExact theo half skew style) (hs : -1 ≤ skew ∧ skew ≤ 1) :
    LegsFit theo half skew style := by
  have hhalf := i64_lt half
  rw [h.halfCast] at hhalf
  have hshift := skewShift_eq style (by omega : half < 2 ^ 64) hs
  have hbounds := lean_bounds style hs half
  have hask := i64_lt ((theo : ℤ) + half)
  have hraised := i64_lt ((theo : ℤ) + half + skewShift half skew style)
  have hlowered := i64_ge ((theo : ℤ) - half + skewShift half skew style)
  rw [h.ask] at hask
  rw [h.askShifted] at hraised
  rw [h.bidShifted] at hlowered
  constructor <;> omega

end Steps

section Quotes
variable {self : Quoter ℚ} {now : ℕ} {input : QuoteInput ℚ}

theorem halfWidth_pos (m : ℚ) (theo : ℕ) : 1 ≤ self.halfWidth m theo :=
  le_max_right (theo * self.spreadBps m / 10000) 1

/-- Saturating the theoretical value and the half-spread hides no leg that does not fit. -/
theorem fits_iff_legsFit : self.Fits now input ↔
    LegsFit (min (centsOf (self.value now input)) (2 ^ 64 - 1))
      (self.halfSpreadCents (min (centsOf (self.value now input)) (2 ^ 64 - 1))
        input.spreadMultiplier) input.directionalSkew input.style := by
  unfold Quoter.Fits
  dsimp only
  rw [halfSpreadCents_eq]
  generalize centsOf (self.value now input) = theo
  rcases Nat.lt_or_ge theo (2 ^ 64) with htheo | htheo
  · have hmin : min theo (2 ^ 64 - 1) = theo := by omega
    rw [hmin]
    generalize self.halfWidth input.spreadMultiplier theo = half
    rcases Nat.lt_or_ge half (2 ^ 64) with hhalf | hhalf
    · have hmin : min half (2 ^ 64 - 1) = half := by omega
      rw [hmin]
      exact Iff.rfl
    · unfold LegsFit
      constructor <;> intro h <;> omega
  · unfold LegsFit
    constructor <;> intro h <;> omega

theorem generateQuote_of_theo {theo half : ℕ} {shift : ℤ} (h : self.theoCents now input = some theo)
    (hhalf : half = self.halfSpreadCents theo input.spreadMultiplier)
    (hshift : shift = skewShift half input.directionalSkew input.style) :
    ∃ q, self.generateQuote now input = some q ∧ q.theoPrice = theo ∧
      q.bidPrice = asU128 (bidCents theo half shift) ∧
      q.askPrice = asU128 (askCents theo half shift) ∧ 1 ≤ q.bidSize ∧ 1 ≤ q.askSize := by
  subst hhalf hshift
  simp only [Quoter.generateQuote, h, Option.some.injEq, exists_eq_left', le_max_iff, le_refl,
    or_true, and_self]

/-- A quote is safe exactly when both of its legs are values of `i64`. -/
theorem quotesSafely_iff (h : input.Clamped) :
    self.QuotesSafely now input ↔ self.Fits now input := by
  rw [fits_iff_legsFit]
  have htheo := theoCents_eq self now input
  have hhalf := halfSpreadCents_eq self input.spreadMultiplier
  constructor
  · rintro ⟨theo, q, ht, -, hsafe⟩
    rw [htheo, Option.some.injEq] at ht
    rw [ht]
    exact fit_of_stepsExact hsafe.steps h.skew
  · intro hfit
    have hone : 1 ≤ self.halfSpreadCents (min (centsOf (self.value now input)) (2 ^ 64 - 1))
        input.spreadMultiplier := by
      rw [hhalf]
      have hpos := @halfWidth_pos self input.spreadMultiplier
        (min (centsOf (self.value now input)) (2 ^ 64 - 1))
      omega
    revert hone hfit htheo
    generalize min (centsOf (self.value now input)) (2 ^ 64 - 1) = theo
    intro htheo hfit hone
    have hsteps := stepsExact_of_fit hone hfit h.skew
    obtain ⟨hb, hlt, ha, hbracket⟩ := prices_bracket hone hfit h.skew rfl rfl
    obtain ⟨q, hq, hat, hbid, hask, hsizes⟩ := generateQuote_of_theo htheo rfl rfl
    have hbidCents := hsteps.bidUnsigned
    have haskCents := hsteps.askUnsigned
    rw [← hbid] at hbidCents
    rw [← hask] at haskCents
    rw [← hbidCents] at hb hlt hbracket
    rw [← haskCents] at hlt hbracket
    exact ⟨theo, q, htheo, hq, hat, by exact_mod_cast hb, by exact_mod_cast hlt, hsizes, hsteps,
      fun hpos => by exact_mod_cast hbracket hpos⟩

end Quotes

section Reference

/-- An expired option is worth what exercising it brings. -/
def intrinsic : Quoter ℚ :=
  .standard ⟨fun _ spot strike _ style _ => match style with
    | .call => if strike < spot then spot - strike else 0
    | .put => if spot < strike then strike - spot else 0⟩

def putAt (strikeCents : ℕ) : QuoteInput ℚ where
  spotCents := 10000
  strikeCents := strikeCents
  expiration := .days 0
  style := .put
  spreadMultiplier := 1
  sizeScalar := 1
  directionalSkew := 1 / 2
  iv := none

theorem putAt_clamped (strikeCents : ℕ) : (putAt strikeCents).Clamped := by
  constructor <;> constructor <;> norm_num [putAt]

theorem quotesSafely_putAt : intrinsic.QuotesSafely 0 (putAt 30000) :=
  (quotesSafely_iff (putAt_clamped 30000)).mpr (by decide +kernel)

/-- A put at the largest strike is worth about `2^64` cents and is offered at 2. -/
theorem deep_put_given_away : (putAt (2 ^ 64 - 1)).Clamped ∧
    intrinsic.generateQuote 0 (putAt (2 ^ 64 - 1)) = some
      { bidPrice := 1, askPrice := 69175290276400780, bidSize := 10, askSize := 8,
        theoPrice := 2 ^ 64 - 10001 } ∧
    ¬ intrinsic.QuotesSafely 0 (putAt (2 ^ 64 - 1)) := by
  have hquote : intrinsic.generateQuote 0 (putAt (2 ^ 64 - 1)) = some
      { bidPrice := 1, askPrice := 69175290276400780, bidSize := 10, askSize := 8,
        theoPrice := 2 ^ 64 - 10001 } := by
    decide +kernel
  refine ⟨putAt_clamped _, hquote, ?_⟩
  rintro ⟨theo, q, -, hq, hsafe⟩
  obtain rfl : _ = q := Option.some.inj (hquote.symm.trans hq)
  have htheo : 2 ^ 64 - 10001 = theo := hsafe.around
  have habove := (hsafe.brackets (by omega)).2
  dsimp only at habove
  omega

end Reference

end MarketMaker
end OptionChainBackend
