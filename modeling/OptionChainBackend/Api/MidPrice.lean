import OptionChainBackend.Api.FillKeys
import OptionChainBackend.Api.Marks
import OptionChainBackend.Api.Positions

/-!
The mid of a market, and what a position is worth at it. Both functions that take a mid add two
prices of type `u128` before they halve; the worth of a position is reckoned with every step
checked.
-/
namespace OptionChainBackend
open Foundation Upstream MarketMaker Exchange

namespace PositionInfo
variable (self : PositionInfo) (currentPrice : ℕ)

def unrealizedPnl : Option ℤ := do
  let current ← checkedI128 currentPrice
  let average ← checkedI128 self.averagePrice
  let priceDiff ← checkedI128 (current - average)
  let pnl ← checkedI128 (priceDiff * self.quantity)
  if i64Min ≤ pnl ∧ pnl ≤ i64Max then some pnl else none

def notionalValue : Option ℕ := checkedU128 (currentPrice * self.quantity.natAbs)

/-- The gain on every unit held. -/
def exactUnrealized : ℤ := ((currentPrice : ℤ) - self.averagePrice) * self.quantity

/-- Both figures are exact, or say that they are not there. -/
structure Valued : Prop where
  unrealized : self.unrealizedPnl currentPrice = none ∨
    self.unrealizedPnl currentPrice = some (self.exactUnrealized currentPrice)
  notional : self.notionalValue currentPrice = none ∨
    self.notionalValue currentPrice = some (currentPrice * self.quantity.natAbs)

variable {self currentPrice}

/-- The figure is there exactly when the two prices fit `i128` and the result fits `i64`. -/
theorem unrealizedPnl_eq : self.unrealizedPnl currentPrice =
    if (currentPrice < 2 ^ 127 ∧ self.averagePrice < 2 ^ 127) ∧
        i64Min ≤ self.exactUnrealized currentPrice ∧ self.exactUnrealized currentPrice ≤ i64Max then
      some (self.exactUnrealized currentPrice)
    else none := by
  unfold unrealizedPnl
  by_cases hc : currentPrice < 2 ^ 127
  · by_cases ha : self.averagePrice < 2 ^ 127
    · have hcurrent := checkedI128_some (n := currentPrice) (by omega) (by omega)
      have haverage := checkedI128_some (n := self.averagePrice) (by omega) (by omega)
      have hdiff := checkedI128_some (n := (currentPrice : ℤ) - self.averagePrice)
        (by omega) (by omega)
      simp only [hcurrent, haverage, hdiff, Option.bind_eq_bind, Option.bind_some]
      change (checkedI128 (self.exactUnrealized currentPrice)).bind _ = _
      by_cases hin : i64Min ≤ self.exactUnrealized currentPrice ∧
          self.exactUnrealized currentPrice ≤ i64Max
      · have hwide := hin
        unfold i64Min i64Max at hwide
        rw [checkedI128_some (by omega) (by omega), if_pos ⟨⟨hc, ha⟩, hin⟩]
        simp [hin]
      · rw [if_neg fun h => hin h.2]
        unfold checkedI128
        split_ifs
        · simp [hin]
        · rfl
    · rw [if_neg fun h => ha h.1.2, checkedI128_none (n := self.averagePrice) (by omega)]
      cases checkedI128 currentPrice <;> rfl
  · rw [if_neg fun h => hc h.1.1, checkedI128_none (n := currentPrice) (by omega)]
    rfl

theorem valued (self : PositionInfo) (currentPrice : ℕ) : self.Valued currentPrice := by
  constructor
  · rw [unrealizedPnl_eq]
    split_ifs <;> simp
  · unfold notionalValue checkedU128
    split_ifs <;> simp

end PositionInfo

/-- The best bid and the best ask. -/
def Exchange.bestQuote {B : Type} [Upstream B] (x : Exchange B) (a : OptionAddr) :
    Option ℕ × Option ℕ := ((x.sidePrices a .buy).max?, (x.sidePrices a .sell).min?)

/-- `calculate_mid_price`, of a quote. -/
def calculateMidPrice : Option ℕ × Option ℕ → Option ℕ
  | (some bid, some ask) => some ((bid + ask) % 2 ^ 128 / 2)
  | _ => none

/-- The mid of a build that checks for overflow. There is none where the sum panics. -/
def midChecked (bid ask : ℕ) : Option ℕ := (checkedU128 (bid + ask)).map (· / 2)

section Mid
variable {B : Type} [Upstream B] {x : Exchange B} {a : OptionAddr} {symbol : String} {bid ask : ℕ}

/-- A mid is found without a panic and within the market, and positions are valued at it. -/
structure MarksInside (x : Exchange B) (a : OptionAddr) (symbol : String) (bid ask : ℕ) :
    Prop where
  checked : (midChecked bid ask).isSome
  current : ∃ mid, x.getCurrentPriceForSymbol symbol = some mid ∧ bid ≤ mid ∧ mid ≤ ask
  surface : ∃ mid, calculateMidPrice (x.bestQuote a) = some mid ∧ bid ≤ mid ∧ mid ≤ ask
  valued : ∀ (pos : PositionInfo) (mid : ℕ), x.getCurrentPriceForSymbol pos.symbol = some mid →
    pos.Valued mid

/-- A sum that wraps puts the mid below the bid. -/
theorem wrapped_mid_lt (hask : ask < 2 ^ 128) (hwrap : ¬ bid + ask < 2 ^ 128) :
    (bid + ask) % 2 ^ 128 / 2 < bid := by
  omega

theorem marksInside_iff (hbook : x.symbolBook symbol = some a)
    (hquote : x.bestQuote a = (some bid, some ask)) (hcross : bid < ask) (hask : ask < 2 ^ 128) :
    MarksInside x a symbol bid ask ↔ bid + ask < 2 ^ 128 := by
  obtain ⟨hmax, hmin⟩ := Prod.mk.inj hquote
  have hcurrent : x.getCurrentPriceForSymbol symbol = some ((bid + ask) % 2 ^ 128 / 2) := by
    simp only [getCurrentPriceForSymbol, hbook, Option.bind_some, markPrice, hmax, hmin]
  constructor
  · intro h
    by_contra hwrap
    obtain ⟨mid, hmid, hlow, -⟩ := h.current
    obtain rfl := Option.some.inj (hcurrent.symm.trans hmid)
    have hbelow := wrapped_mid_lt hask hwrap
    omega
  · intro hsum
    have hmid : (bid + ask) % 2 ^ 128 / 2 = (bid + ask) / 2 := by rw [Nat.mod_eq_of_lt hsum]
    constructor
    · simp [midChecked, PositionInfo.checkedU128_some hsum]
    · exact ⟨_, hcurrent, by omega, by omega⟩
    · refine ⟨_, by rw [hquote]; rfl, by omega, by omega⟩
    · exact fun pos mid _ => pos.valued mid

end Mid

namespace AppState
section Reference

/-- An ask, and a bid that does not reach it. -/
def twoSided (bid ask : ℕ) : List (Request ℚ) :=
  [.addOrder ⟨"BTC", "30", 10000, "call"⟩ ⟨.sell, ask, 5, none, none⟩,
    .addOrder ⟨"BTC", "30", 10000, "call"⟩ ⟨.buy, bid, 5, none, none⟩]

theorem marksInside_narrow :
    MarksInside ((twoSided 90 101).foldl step reference).market btcCall "BTC-30-10000-C" 90 101 ↔
      90 + 101 < 2 ^ 128 :=
  marksInside_iff (by decide +kernel) (by decide +kernel) (by decide) (by decide)

theorem mid_wraps : ¬ ∀ s : AppState ReferenceBook ℚ, Reaches Start step (fun _ _ => True) s →
    ∀ a symbol bid ask, s.market.symbolBook symbol = some a →
      s.market.bestQuote a = (some bid, some ask) → bid < ask → ask < 2 ^ 128 →
      MarksInside s.market a symbol bid ask := by
  intro h
  have hrun : Reaches Start step (fun _ _ => True)
      ((twoSided (2 ^ 127) (2 ^ 127 + 1)).foldl step reference) :=
    (Reaches.start reference_start).run ⟨trivial, trivial, trivial⟩
  have hinside := h _ hrun btcCall "BTC-30-10000-C" (2 ^ 127) (2 ^ 127 + 1) (by decide +kernel)
    (by decide +kernel) (by decide) (by decide)
  obtain ⟨mid, hmid, hlow, -⟩ := hinside.current
  have hzero : ((twoSided (2 ^ 127) (2 ^ 127 + 1)).foldl step reference
      ).market.getCurrentPriceForSymbol "BTC-30-10000-C" = some 0 := by decide +kernel
  obtain rfl := Option.some.inj (hzero.symm.trans hmid)
  omega

end Reference
end AppState
end OptionChainBackend
