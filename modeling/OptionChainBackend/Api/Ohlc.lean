import Mathlib.Algebra.Ring.Nat
import OptionChainBackend.Foundation.Table

/-! OHLC bars: `ohlc.rs`. A series is kept in ascending order of its bars' timestamps. -/
namespace OptionChainBackend
open Foundation

structure OhlcBar where
  timestamp : ℕ
  «open» : ℕ
  high : ℕ
  low : ℕ
  close : ℕ
  volume : ℕ
  tradeCount : ℕ
  deriving DecidableEq, Repr

inductive OhlcInterval where
  | oneMinute | fiveMinutes | fifteenMinutes | oneHour | fourHours | oneDay
  deriving DecidableEq, Repr

def OhlcBar.new (timestamp price quantity : ℕ) : OhlcBar :=
  ⟨timestamp, price, price, price, price, quantity, 1⟩

/-- `u64::saturating_add`. -/
def saturatingAddU64 (a b : ℕ) : ℕ := min (a + b) (2 ^ 64 - 1)

def OhlcBar.update (self : OhlcBar) (price quantity : ℕ) : OhlcBar :=
  { self with
    high := max self.high price
    low := min self.low price
    close := price
    volume := saturatingAddU64 self.volume quantity
    tradeCount := saturatingAddU64 self.tradeCount 1 }

namespace OhlcInterval

def seconds : OhlcInterval → ℕ
  | .oneMinute => 60
  | .fiveMinutes => 300
  | .fifteenMinutes => 900
  | .oneHour => 3600
  | .fourHours => 14400
  | .oneDay => 86400

def floorTimestamp (self : OhlcInterval) (timestampSecs : ℕ) : ℕ :=
  timestampSecs / self.seconds * self.seconds

/-- In the order `record_trade` visits them. -/
def all : List OhlcInterval :=
  [.oneMinute, .fiveMinutes, .fifteenMinutes, .oneHour, .fourHours, .oneDay]

end OhlcInterval

def maxBarsPerSeries : ℕ := 2048

abbrev OhlcSeries := List OhlcBar

/-- The trade folded into its bar, which is created in its place when missing. -/
def OhlcSeries.fold (timestamp price quantity : ℕ) : OhlcSeries → OhlcSeries
  | [] => [.new timestamp price quantity]
  | bar :: bars =>
    if timestamp < bar.timestamp then .new timestamp price quantity :: bar :: bars
    else if timestamp = bar.timestamp then bar.update price quantity :: bars
    else bar :: OhlcSeries.fold timestamp price quantity bars

/-- The oldest bars beyond the cap leave. -/
def OhlcSeries.retain (bars : OhlcSeries) : OhlcSeries :=
  bars.drop (bars.length - maxBarsPerSeries)

abbrev OhlcAggregator := Table (String × OhlcInterval) OhlcSeries

namespace OhlcAggregator

def updateBar (self : OhlcAggregator) (symbol : String) (interval : OhlcInterval)
    (timestampSecs price quantity : ℕ) : OhlcAggregator :=
  let series := (self.lookup (symbol, interval)).getD []
  self.insert (symbol, interval)
    (OhlcSeries.retain (.fold (interval.floorTimestamp timestampSecs) price quantity series))

def recordTrade (self : OhlcAggregator) (symbol : String) (timestampMs price quantity : ℕ) :
    OhlcAggregator :=
  OhlcInterval.all.foldl
    (fun bars interval => bars.updateBar symbol interval (timestampMs / 1000) price quantity) self

end OhlcAggregator
end OptionChainBackend
