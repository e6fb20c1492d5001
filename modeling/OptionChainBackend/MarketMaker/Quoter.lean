import Mathlib.Data.Rat.Floor
import Mathlib.Algebra.Order.Ring.Rat
import OptionChainBackend.Upstream.Calendar

/-! Quote generation: `market_maker/quoter.rs`, over an abstract `f64`. -/
namespace OptionChainBackend

/-- The `f64` operations the market maker uses. -/
class F64 (F : Type) where
  ofNat : ℕ → F
  ofRat : ℚ → F
  add : F → F → F
  sub : F → F → F
  mul : F → F → F
  div : F → F → F
  neg : F → F
  abs : F → F
  round : F → F
  /-- `f64::max`: a `NaN` argument loses. -/
  max : F → F → F
  lt : F → F → Bool
  isFinite : F → Bool
  /-- `as u64` and `as i64`: truncate, saturate, `NaN` becomes 0. -/
  toU64 : F → ℕ
  toI64 : F → ℤ

/-- `f64::clamp`. -/
def F64.clamp {F : Type} [F64 F] (x lo hi : F) : F :=
  let x := if F64.lt x lo then lo else x
  if F64.lt hi x then hi else x

def truncate (x : ℚ) : ℤ := if 0 ≤ x then ⌊x⌋ else ⌈x⌉

/-- Exact rationals read as finite `f64` values. -/
instance : F64 ℚ where
  ofNat n := n
  ofRat q := q
  add x y := x + y
  sub x y := x - y
  mul x y := x * y
  div x y := x / y
  neg x := -x
  abs x := |x|
  round x := if 0 ≤ x then (⌊x + 1 / 2⌋ : ℤ) else (⌈x - 1 / 2⌉ : ℤ)
  max x y := max x y
  lt x y := decide (x < y)
  isFinite _ := true
  toU64 x := min (truncate x).toNat (2 ^ 64 - 1)
  toI64 x := max (-2 ^ 63) (min (truncate x) (2 ^ 63 - 1))

/-- Two's complement wrapping to 64 bits (`as i64`, and `i64` arithmetic in release builds). -/
def i64 (n : ℤ) : ℤ := Int.bmod n (2 ^ 64)

/-- `as u128` of a signed value: the sign is extended. -/
def asU128 (n : ℤ) : ℕ := (n % 2 ^ 128).toNat

namespace MarketMaker

structure QuoteParams where
  bidPrice : ℕ
  askPrice : ℕ
  bidSize : ℕ
  askSize : ℕ
  theoPrice : ℕ
  deriving DecidableEq, Repr

structure QuoteInput (F : Type) where
  spotCents : ℕ
  strikeCents : ℕ
  expiration : ExpirationDate
  style : OptionStyle
  spreadMultiplier : F
  sizeScalar : F
  directionalSkew : F
  iv : Option F

/-- The pricer is any function of clock, spot, strike, expiration, style and volatility. -/
structure OptionPricer (F : Type) where
  theoreticalValue : ℕ → F → F → ExpirationDate → OptionStyle → Option F → F

structure Quoter (F : Type) where
  pricer : OptionPricer F
  baseSpreadBps : ℕ
  baseSize : ℕ

def defaultBaseSpreadBps : ℕ := 100
def defaultBaseSize : ℕ := 10

/-- `Quoter::default` around a pricer. -/
def Quoter.standard {F : Type} (pricer : OptionPricer F) : Quoter F :=
  ⟨pricer, defaultBaseSpreadBps, defaultBaseSize⟩

/-- The bid in `i64` cents, floored at 1. -/
def bidCents (theoCents halfSpreadCents : ℕ) (adjustment : ℤ) : ℤ :=
  max (i64 (i64 (i64 theoCents - i64 halfSpreadCents) + adjustment)) 1

/-- The ask in `i64` cents, at least one above the bid. -/
def askCents (theoCents halfSpreadCents : ℕ) (adjustment : ℤ) : ℤ :=
  max (i64 (i64 (i64 theoCents + i64 halfSpreadCents) + adjustment))
    (i64 (bidCents theoCents halfSpreadCents adjustment + 1))

/-- `Quoter::calculate_edge`. -/
def calculateEdge (fillPriceCents theoCents : ℕ) (isBuy : Bool) : ℤ :=
  if isBuy then i64 (i64 theoCents - i64 fillPriceCents)
  else i64 (i64 fillPriceCents - i64 theoCents)

variable {F : Type} [F64 F]
open F64

def bpsDenominator : F := ofRat 10000
def skewPriceWeight : F := ofRat (1 / 2)
def skewSizeWeight : F := ofRat (3 / 10)

/-- The theoretical value in cents; `none` when it, or it times 100, is not finite. -/
def Quoter.theoCents (self : Quoter F) (now : ℕ) (input : QuoteInput F) : Option ℕ :=
  let spot := div (ofNat input.spotCents) (ofRat 100)
  let strike := div (ofNat input.strikeCents) (ofRat 100)
  let theo := self.pricer.theoreticalValue now spot strike input.expiration input.style input.iv
  if isFinite theo && isFinite (mul theo (ofRat 100)) then
    some (toU64 (round (mul theo (ofRat 100))))
  else none

def Quoter.halfSpreadCents (self : Quoter F) (theoCents : ℕ) (spreadMultiplier : F) : ℕ :=
  let bps := toU64 (div (mul (ofNat self.baseSpreadBps) spreadMultiplier) (ofRat 2 : F))
  toU64 (F64.max (div (mul (ofNat theoCents) (ofNat bps)) (bpsDenominator : F)) (ofRat 1))

/-- The signed shift of both legs; a put moves against the underlying. -/
def skewShift (halfSpreadCents : ℕ) (directionalSkew : F) (style : OptionStyle) : ℤ :=
  let adjustment := toI64 (mul (mul (ofNat halfSpreadCents) directionalSkew) (skewPriceWeight : F))
  match style with
  | .call => adjustment
  | .put => i64 (-adjustment)

def Quoter.legSizes (self : Quoter F) (sizeScalar directionalSkew : F) : ℕ × ℕ :=
  let baseSize := toU64 (F64.max (mul (ofNat self.baseSize) sizeScalar) (ofRat 1))
  let factor := sub (ofRat 1) (mul (F64.abs directionalSkew) (skewSizeWeight : F))
  if lt (ofRat 0) directionalSkew then (baseSize, toU64 (mul (ofNat baseSize) factor))
  else if lt directionalSkew (ofRat 0) then (toU64 (mul (ofNat baseSize) factor), baseSize)
  else (baseSize, baseSize)

def Quoter.generateQuote (self : Quoter F) (now : ℕ) (input : QuoteInput F) :
    Option QuoteParams :=
  match self.theoCents now input with
  | none => none
  | some theoCents =>
    let half := self.halfSpreadCents theoCents input.spreadMultiplier
    let shift := skewShift half input.directionalSkew input.style
    let sizes := self.legSizes input.sizeScalar input.directionalSkew
    some
      { bidPrice := asU128 (bidCents theoCents half shift)
        askPrice := asU128 (askCents theoCents half shift)
        bidSize := max sizes.1 1
        askSize := max sizes.2 1
        theoPrice := theoCents }

theorem i64_lt (n : ℤ) : i64 n < 2 ^ 63 := by
  have h : Int.bmod n (2 ^ 64) < ((2 ^ 64 : ℕ) + 1) / 2 := Int.bmod_lt (by norm_num)
  unfold i64
  omega

theorem asU128_of_nonneg {n : ℤ} (h0 : 0 ≤ n) (h1 : n < 2 ^ 63) : asU128 n = n.toNat := by
  have h : n % 2 ^ 128 = n := Int.emod_eq_of_lt h0 (by omega)
  rw [asU128, h]

section Prices
variable (theoCents halfSpreadCents : ℕ) (adjustment : ℤ)

theorem bidCents_bounds : 0 < bidCents theoCents halfSpreadCents adjustment ∧
    bidCents theoCents halfSpreadCents adjustment < 2 ^ 63 := by
  have h := i64_lt (i64 (i64 theoCents - i64 halfSpreadCents) + adjustment)
  unfold bidCents
  omega

/-- The ask is above the bid, unless the bid is the largest `i64`. -/
theorem askCents_bounds (h : bidCents theoCents halfSpreadCents adjustment + 1 < 2 ^ 63) :
    bidCents theoCents halfSpreadCents adjustment < askCents theoCents halfSpreadCents adjustment ∧
    askCents theoCents halfSpreadCents adjustment < 2 ^ 63 := by
  have h0 := bidCents_bounds theoCents halfSpreadCents adjustment
  have ha := i64_lt (i64 (i64 theoCents + i64 halfSpreadCents) + adjustment)
  have hsucc : i64 (bidCents theoCents halfSpreadCents adjustment + 1) =
      bidCents theoCents halfSpreadCents adjustment + 1 := by
    apply Int.bmod_eq_of_le <;> omega
  unfold askCents
  rw [hsucc]
  omega

end Prices

/-- Every quote has positive sizes and a positive bid price. -/
theorem generateQuote_pos {self : Quoter F} {now : ℕ} {input : QuoteInput F} {q : QuoteParams}
    (h : self.generateQuote now input = some q) :
    0 < q.bidSize ∧ 0 < q.askSize ∧ 0 < q.bidPrice := by
  unfold Quoter.generateQuote at h
  cases ht : self.theoCents now input with
  | none => simp [ht] at h
  | some theoCents =>
    simp only [ht, Option.some.injEq] at h
    subst h
    have hone : ∀ n : ℕ, 0 < max n 1 := fun n =>
      Nat.lt_of_lt_of_le Nat.one_pos (le_max_right n 1)
    have hb := bidCents_bounds theoCents (self.halfSpreadCents theoCents input.spreadMultiplier)
      (skewShift (self.halfSpreadCents theoCents input.spreadMultiplier) input.directionalSkew
        input.style)
    refine ⟨?_, ?_, ?_⟩
    · dsimp only
      apply hone
    · dsimp only
      apply hone
    · dsimp only
      rw [asU128_of_nonneg hb.1.le hb.2]
      omega

end MarketMaker
end OptionChainBackend
