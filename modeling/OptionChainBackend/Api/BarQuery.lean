import OptionChainBackend.Api.Expiration
import OptionChainBackend.Api.Series

/-!
Reading bars: `get_bars` and the handler behind the OHLC route. A range read of an ordered map whose
start lies after its end panics; `none` stands for that.
-/
namespace OptionChainBackend
open Foundation

/-- `BTreeMap::range(from..=toSecs)`, which does not look at the bounds of an empty map. -/
def OhlcSeries.range (bars : OhlcSeries) (fromTs toTs : ℕ) : Option OhlcSeries :=
  if bars ≠ [] ∧ toTs < fromTs then none
  else some (bars.filter fun b => fromTs ≤ b.timestamp ∧ b.timestamp ≤ toTs)

def OhlcAggregator.getBars (self : OhlcAggregator) (symbol : String) (interval : OhlcInterval)
    (fromSecs toSecs : Option ℕ) (limit : ℕ) : Option (List OhlcBar) :=
  match self.lookup (symbol, interval) with
  | none => some []
  | some bars =>
    (bars.range (fromSecs.getD 0) (toSecs.getD (2 ^ 64 - 1))).map fun range =>
      if fromSecs.isSome && toSecs.isSome then range.take limit
      else (range.reverse.take limit).reverse

section GetOhlc

structure OhlcQuery where
  interval : String
  fromSecs : Option ℕ
  toSecs : Option ℕ
  limit : Option ℕ
  deriving DecidableEq, Repr

structure OhlcResponse where
  symbol : String
  interval : String
  bars : List OhlcBar
  deriving DecidableEq, Repr

namespace OhlcInterval

def display : OhlcInterval → String
  | .oneMinute => "1m"
  | .fiveMinutes => "5m"
  | .fifteenMinutes => "15m"
  | .oneHour => "1h"
  | .fourHours => "4h"
  | .oneDay => "1d"

def parse (s : String) : Except ApiError OhlcInterval :=
  match all.find? fun i => lowercase s = i.display with
  | some i => .ok i
  | none => .error (.invalidRequest
      ("Invalid interval: " ++ s ++ ". Use 1m, 5m, 15m, 1h, 4h, or 1d"))

end OhlcInterval

/-- `get_ohlc`. -/
def OhlcAggregator.getOhlc (self : OhlcAggregator) (p : OptionPath) (query : OhlcQuery) :
    Option (Except ApiError OhlcResponse) :=
  match parseOptionStyle p.style, OhlcInterval.parse query.interval with
  | .error e, _ => some (.error e)
  | .ok _, .error e => some (.error e)
  | .ok style, .ok interval =>
    let symbol := symbolOf p.underlying p.expStr p.strike style
    (self.getBars symbol interval query.fromSecs query.toSecs (min (query.limit.getD 500) 1000)).map
      fun bars => .ok ⟨symbol, interval.display, bars⟩

end GetOhlc

section Answer
variable {bars out : OhlcSeries} {fromSecs toSecs : Option ℕ} {limit : ℕ}

/-- The bars between the bounds that are given. -/
def OhlcSeries.window (bars : OhlcSeries) (fromSecs toSecs : Option ℕ) : OhlcSeries :=
  bars.filter fun b => (∀ f ∈ fromSecs, f ≤ b.timestamp) ∧ ∀ t ∈ toSecs, b.timestamp ≤ t

/-- `out` are `limit` bars of the window, or all of them: from its start if both bounds are given,
up to its end otherwise. -/
structure AnswersBars (bars : OhlcSeries) (fromSecs toSecs : Option ℕ) (limit : ℕ)
    (out : List OhlcBar) : Prop where
  ascending : out.Pairwise fun b b' => b.timestamp < b'.timestamp
  length : out.length = min limit (bars.window fromSecs toSecs).length
  oldest : fromSecs.isSome → toSecs.isSome → out <+: bars.window fromSecs toSecs
  newest : ¬ (fromSecs.isSome ∧ toSecs.isSome) → out <:+ bars.window fromSecs toSecs

theorem window_of_range (ht : ∀ b ∈ bars, b.timestamp < 2 ^ 64) :
    (bars.filter fun b => fromSecs.getD 0 ≤ b.timestamp ∧ b.timestamp ≤ toSecs.getD (2 ^ 64 - 1)) =
      bars.window fromSecs toSecs := by
  apply List.filter_congr
  intro b hb
  have hlt := ht b hb
  rw [decide_eq_decide]
  cases fromSecs <;> cases toSecs <;> simp <;> omega

/-- The newest of the window are what is left when its other bars are dropped. -/
theorem reverse_take_reverse (bars : List OhlcBar) (limit : ℕ) :
    (bars.reverse.take limit).reverse = bars.drop (bars.length - limit) := by
  rw [List.take_reverse, List.reverse_reverse]

end Answer

namespace OhlcAggregator
variable {trades : List TradeReport} {symbol : String} {i : OhlcInterval}
  {fromSecs toSecs : Option ℕ} {limit : ℕ} {self : OhlcAggregator} {bars : OhlcSeries}

/-- The start of the range lies after its end only when both are given. -/
theorem misordered_iff (hf : ∀ f ∈ fromSecs, f < 2 ^ 64) :
    toSecs.getD (2 ^ 64 - 1) < fromSecs.getD 0 ↔ ¬ ∀ f ∈ fromSecs, ∀ t ∈ toSecs, f ≤ t := by
  cases fromSecs with
  | none => simp
  | some f =>
    have hlt : f < 2 ^ 64 := hf f rfl
    cases toSecs with
    | none =>
      simp
      omega
    | some t => simp

/-- The bars of a stored series, read with bounds in order. -/
theorem getBars_ordered (hl : self.lookup (symbol, i) = some bars)
    (ht : ∀ b ∈ bars, b.timestamp < 2 ^ 64) (hf : ∀ f ∈ fromSecs, f < 2 ^ 64)
    (h : ∀ f ∈ fromSecs, ∀ t ∈ toSecs, f ≤ t) :
    self.getBars symbol i fromSecs toSecs limit =
      some (if fromSecs.isSome && toSecs.isSome then (bars.window fromSecs toSecs).take limit
        else (bars.window fromSecs toSecs).drop
          ((bars.window fromSecs toSecs).length - limit)) := by
  have hrange : bars.range (fromSecs.getD 0) (toSecs.getD (2 ^ 64 - 1)) =
      some (bars.window fromSecs toSecs) := by
    unfold OhlcSeries.range
    rw [if_neg fun hbad => (misordered_iff hf).mp hbad.2 h, window_of_range ht]
  unfold getBars
  rw [hl]
  dsimp only
  rw [hrange, Option.map_some, reverse_take_reverse]

/-- Bounds in the wrong order panic, as long as the series holds a bar. -/
theorem getBars_panics (hl : self.lookup (symbol, i) = some bars) (hne : bars ≠ [])
    (hf : ∀ f ∈ fromSecs, f < 2 ^ 64) (h : ¬ ∀ f ∈ fromSecs, ∀ t ∈ toSecs, f ≤ t) :
    self.getBars symbol i fromSecs toSecs limit = none := by
  unfold getBars OhlcSeries.range
  rw [hl]
  dsimp only
  rw [if_pos ⟨hne, (misordered_iff hf).mpr h⟩]
  rfl

theorem answersBars_anchored (h : bars.Ordered) : AnswersBars bars fromSecs toSecs limit
    (if fromSecs.isSome && toSecs.isSome then (bars.window fromSecs toSecs).take limit
      else (bars.window fromSecs toSecs).drop ((bars.window fromSecs toSecs).length - limit)) := by
  have hwindow : (bars.window fromSecs toSecs).Pairwise fun b b' => b.timestamp < b'.timestamp :=
    h.filter _
  by_cases hboth : fromSecs.isSome ∧ toSecs.isSome
  · have hif : (fromSecs.isSome && toSecs.isSome) = true := by simp [hboth.1, hboth.2]
    rw [if_pos hif]
    exact ⟨hwindow.sublist (List.take_sublist _ _), List.length_take,
      fun _ _ => List.take_prefix _ _, fun hnot => absurd hboth hnot⟩
  · have hif : ¬ (fromSecs.isSome && toSecs.isSome) = true := by simpa using hboth
    rw [if_neg hif]
    refine ⟨hwindow.sublist (List.drop_sublist _ _), ?_,
      fun hfrom hto => absurd ⟨hfrom, hto⟩ hboth, fun _ => List.drop_suffix _ _⟩
    rw [List.length_drop]
    omega

/-- A series is stored from the first trade of its symbol on. -/
theorem recordTrades_lookup_none (h : trades.filter (·.symbol = symbol) = []) :
    (recordTrades ∅ trades).lookup (symbol, i) = none := by
  have hother : ∀ t ∈ trades, t.symbol ≠ symbol := by
    simpa [List.filter_eq_nil_iff] using h
  unfold recordTrades
  apply List.foldlRecOn (motive := fun self : OhlcAggregator => self.lookup (symbol, i) = none)
    trades _ rfl
  intro self hself t ht
  rw [recordTrade_lookup, if_neg (Ne.symm (hother t ht))]
  exact hself

/-- What is stored is not empty, and its bars begin at times of the clock. -/
theorem stored_bars (hq : ∀ t ∈ trades, t.quantity < 2 ^ 64)
    (ht : ∀ t ∈ trades, t.timestampMs < 2 ^ 64)
    (hl : (recordTrades ∅ trades).lookup (symbol, i) = some bars) :
    bars.Ordered ∧ bars ≠ [] ∧ ∀ b ∈ bars, b.timestamp < 2 ^ 64 := by
  have hfolded := recordTrades_folded hq symbol i
  have hseries : (recordTrades ∅ trades).seriesOf symbol i = bars := by simp [seriesOf, hl]
  rw [hseries] at hfolded
  refine ⟨hfolded.ordered, ?_, fun b hb => ?_⟩
  · rintro rfl
    have hcard : (newest maxBarsPerSeries
        (seenTimes i (trades.filter (·.symbol = symbol)))).card = 0 := by
      rw [← hfolded.times]
      rfl
    rw [card_newest] at hcard
    have hempty : (seenTimes i (trades.filter (·.symbol = symbol))).card = 0 := by
      simpa [maxBarsPerSeries] using hcard
    have hnil : trades.filter (·.symbol = symbol) = [] := by
      simpa [seenTimes] using hempty
    rw [recordTrades_lookup_none hnil] at hl
    cases hl
  · have hmem : b.timestamp ∈ bars.times := OhlcSeries.mem_times.mpr ⟨b, hb, rfl⟩
    rw [hfolded.times] at hmem
    have hseen := newest_subset _ _ hmem
    simp only [seenTimes, List.mem_toFinset, List.mem_map, List.mem_filter] at hseen
    obtain ⟨t, ⟨htrade, -⟩, htime⟩ := hseen
    have hlt := ht t htrade
    have hfloor : t.barTime i ≤ t.timestampMs / 1000 := Nat.div_mul_le_self _ _
    omega

/-- A query answers, with the bars it is anchored at, exactly when there is no series or its bounds
are not in the wrong order. -/
theorem get_bars_answers_iff (hq : ∀ t ∈ trades, t.quantity < 2 ^ 64)
    (ht : ∀ t ∈ trades, t.timestampMs < 2 ^ 64) (hf : ∀ f ∈ fromSecs, f < 2 ^ 64) :
    let self := recordTrades ∅ trades
    (∃ out, self.getBars symbol i fromSecs toSecs limit = some out ∧
      AnswersBars (self.seriesOf symbol i) fromSecs toSecs limit out) ↔
      self.lookup (symbol, i) = none ∨ ∀ f ∈ fromSecs, ∀ t ∈ toSecs, f ≤ t := by
  intro self
  cases hl : self.lookup (symbol, i) with
  | none =>
    have hseries : self.seriesOf symbol i = [] := by simp [seriesOf, hl]
    have hget : self.getBars symbol i fromSecs toSecs limit = some [] := by simp [getBars, hl]
    rw [hseries, hget]
    simp only [true_or, iff_true]
    exact ⟨[], rfl, List.Pairwise.nil, by simp [OhlcSeries.window], by simp, by simp⟩
  | some bars =>
    obtain ⟨hordered, hne, htimes⟩ := stored_bars hq ht hl
    have hseries : self.seriesOf symbol i = bars := by simp [seriesOf, hl]
    rw [hseries]
    simp only [reduceCtorEq, false_or]
    constructor
    · rintro ⟨out, hout, -⟩
      by_contra hbad
      rw [getBars_panics hl hne hf hbad] at hout
      cases hout
    · intro h
      exact ⟨_, getBars_ordered hl htimes hf h, answersBars_anchored hordered⟩

/-- The panic is in reach of a client. -/
theorem getOhlc_panics_iff {p : OptionPath} {query : OhlcQuery} {style : OptionStyle}
    (hs : parseOptionStyle p.style = .ok style) (hi : OhlcInterval.parse query.interval = .ok i) :
    self.getOhlc p query = none ↔ self.getBars (symbolOf p.underlying p.expStr p.strike style) i
      query.fromSecs query.toSecs (min (query.limit.getD 500) 1000) = none := by
  unfold getOhlc
  rw [hs, hi]
  exact Option.map_eq_none_iff

section Reference

def oneTrade : List TradeReport := [⟨"BTC-30-10000-C", 60000, 500, 1⟩]

theorem get_bars_answers_oneTrade : ∃ out,
    (recordTrades ∅ oneTrade).getBars "BTC-30-10000-C" .oneMinute (some 0) (some 60) 10 = some out ∧
      AnswersBars ((recordTrades ∅ oneTrade).seriesOf "BTC-30-10000-C" .oneMinute) (some 0)
        (some 60) 10 out :=
  (get_bars_answers_iff (by decide) (by decide) (by decide)).mpr (.inr (by decide))

/-- One minute traded, and a client asks from second 2 to second 1. -/
theorem misordered_query_panics :
    (recordTrades ∅ oneTrade).getOhlc ⟨"BTC", "30", 10000, "call"⟩ ⟨"1m", some 2, some 1, none⟩ =
      none ∧
    ¬ ∃ out, (recordTrades ∅ oneTrade).getBars "BTC-30-10000-C" .oneMinute (some 2) (some 1) 500 =
      some out := by
  constructor
  · decide +kernel
  · rintro ⟨out, hout⟩
    have hpanics : (recordTrades ∅ oneTrade).getBars "BTC-30-10000-C" .oneMinute (some 2) (some 1)
        500 = none := by decide +kernel
    rw [hpanics] at hout
    cases hout

end Reference
end OhlcAggregator
end OptionChainBackend
