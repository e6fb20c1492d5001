import OptionChainBackend.Api.Bars
import OptionChainBackend.Foundation.Newest

/-!
A series of bars is what its trades fold to. Bars of late trades are put in their place, the oldest
bars leave; still every bar that is there holds all the trades that ever fell into it.
-/
namespace OptionChainBackend
open Foundation

/-- The arguments of one `record_trade`. -/
structure TradeReport where
  symbol : String
  timestampMs : ℕ
  price : ℕ
  quantity : ℕ
  deriving DecidableEq, Repr

/-- The timestamp of the bar the trade falls into. -/
def TradeReport.barTime (t : TradeReport) (i : OhlcInterval) : ℕ :=
  i.floorTimestamp (t.timestampMs / 1000)

/-- The bar sums the trades up, in the order they arrived. -/
structure OhlcBar.SumsUp (bar : OhlcBar) (trades : List TradeReport) : Prop where
  «open» : (trades.head?).map TradeReport.price = some bar.open
  close : (trades.getLast?).map TradeReport.price = some bar.close
  high : bar.high ∈ trades.map TradeReport.price ∧ ∀ t ∈ trades, t.price ≤ bar.high
  low : bar.low ∈ trades.map TradeReport.price ∧ ∀ t ∈ trades, bar.low ≤ t.price
  volume : bar.volume = min (trades.map TradeReport.quantity).sum (2 ^ 64 - 1)
  tradeCount : bar.tradeCount = min trades.length (2 ^ 64 - 1)

namespace OhlcBar.SumsUp
variable {bar : OhlcBar} {trades : List TradeReport}

theorem new (t : TradeReport) (hq : t.quantity < 2 ^ 64) (time : ℕ) :
    (OhlcBar.new time t.price t.quantity).SumsUp [t] where
  «open» := rfl
  close := rfl
  high := by simp [OhlcBar.new]
  low := by simp [OhlcBar.new]
  volume := by
    simp only [OhlcBar.new, List.map_cons, List.map_nil, List.sum_cons, List.sum_nil]
    omega
  tradeCount := by simp [OhlcBar.new]

theorem update (h : bar.SumsUp trades) (t : TradeReport) :
    (bar.update t.price t.quantity).SumsUp (trades ++ [t]) where
  «open» := by
    have hopen := h.open
    cases trades with
    | nil => simp at hopen
    | cons first rest => exact hopen
  close := by simp [OhlcBar.update]
  high := by
    obtain ⟨hmem, hle⟩ := h.high
    simp only [OhlcBar.update, List.map_append, List.map_cons, List.map_nil, List.mem_append,
      List.mem_singleton]
    constructor
    · rcases le_total bar.high t.price with hp | hp
      · exact .inr (max_eq_right hp)
      · exact .inl ((max_eq_left hp).symm ▸ hmem)
    · rintro u (hu | rfl)
      · exact (hle u hu).trans (le_max_left _ _)
      · exact le_max_right _ _
  low := by
    obtain ⟨hmem, hle⟩ := h.low
    simp only [OhlcBar.update, List.map_append, List.map_cons, List.map_nil, List.mem_append,
      List.mem_singleton]
    constructor
    · rcases le_total bar.low t.price with hp | hp
      · exact .inl ((min_eq_left hp).symm ▸ hmem)
      · exact .inr (min_eq_right hp)
    · rintro u (hu | rfl)
      · exact (min_le_left _ _).trans (hle u hu)
      · exact min_le_right _ _
  volume := by
    have hvolume := h.volume
    simp only [OhlcBar.update, saturatingAddU64, List.map_append, List.sum_append, List.map_cons,
      List.map_nil, List.sum_cons, List.sum_nil]
    omega
  tradeCount := by
    have hcount := h.tradeCount
    simp only [OhlcBar.update, saturatingAddU64, List.length_append, List.length_cons,
      List.length_nil]
    omega

end OhlcBar.SumsUp

namespace OhlcSeries
variable {bars : OhlcSeries} {bar : OhlcBar} {t p q : ℕ}

/-- In an ascending series a trade makes one bar new or other; the rest stay. -/
theorem Ordered.mem_fold (h : Ordered bars) (hb : bar ∈ OhlcSeries.fold t p q bars) :
    (bar ∈ bars ∧ bar.timestamp ≠ t) ∨ (∃ old ∈ bars, old.timestamp = t ∧ bar = old.update p q) ∨
      (bar = .new t p q ∧ ∀ b ∈ bars, b.timestamp ≠ t) := by
  induction bars with
  | nil => exact .inr (.inr ⟨List.mem_singleton.mp hb, nofun⟩)
  | cons b bars ih =>
    obtain ⟨hlt, hbars⟩ := List.pairwise_cons.mp h
    unfold OhlcSeries.fold at hb
    split_ifs at hb with hfirst hsame
    · have hlater : ∀ b' ∈ b :: bars, t < b'.timestamp := by
        intro b' hb'
        rcases List.mem_cons.mp hb' with rfl | hb'
        · exact hfirst
        · exact hfirst.trans (hlt b' hb')
      rcases List.mem_cons.mp hb with rfl | hb
      · exact .inr (.inr ⟨rfl, fun b' hb' => (hlater b' hb').ne'⟩)
      · exact .inl ⟨hb, (hlater bar hb).ne'⟩
    · rcases List.mem_cons.mp hb with rfl | hb
      · exact .inr (.inl ⟨b, List.mem_cons_self, hsame.symm, rfl⟩)
      · exact .inl ⟨List.mem_cons_of_mem b hb, fun he => (hlt bar hb).ne (hsame ▸ he.symm)⟩
    · rcases List.mem_cons.mp hb with rfl | hb
      · exact .inl ⟨List.mem_cons_self, Ne.symm hsame⟩
      · rcases ih hbars hb with ⟨hmem, hne⟩ | ⟨old, hold, hat⟩ | ⟨hnew, hnone⟩
        · exact .inl ⟨List.mem_cons_of_mem b hmem, hne⟩
        · exact .inr (.inl ⟨old, List.mem_cons_of_mem b hold, hat⟩)
        · refine .inr (.inr ⟨hnew, fun b' hb' => ?_⟩)
          rcases List.mem_cons.mp hb' with rfl | hb'
          · exact Ne.symm hsame
          · exact hnone b' hb'

/-- The timestamps of the bars. -/
def times (bars : OhlcSeries) : Finset ℕ := (bars.map OhlcBar.timestamp).toFinset

theorem mem_times : t ∈ times bars ↔ ∃ b ∈ bars, b.timestamp = t := by
  simp [times]

theorem times_fold (t p q : ℕ) (bars : OhlcSeries) :
    times (fold t p q bars) = insert t (times bars) := by
  induction bars with
  | nil => rfl
  | cons b bars ih =>
    simp only [times, List.map_cons, List.toFinset_cons] at ih ⊢
    unfold fold
    split_ifs with hlt heq
    · simp [OhlcBar.new]
    · simp [OhlcBar.update, heq]
    · simp only [List.map_cons, List.toFinset_cons, ih]
      exact Finset.insert_comm _ _ _

/-- The cap keeps the bars of the newest timestamps. -/
theorem Ordered.times_retain (h : Ordered bars) :
    times (retain bars) = newest maxBarsPerSeries (times bars) := by
  have hsorted : (bars.map OhlcBar.timestamp).Pairwise (· < ·) := List.pairwise_map.mpr h
  have hdrop := toFinset_drop (n := maxBarsPerSeries) hsorted
  rw [List.length_map, ← List.map_drop] at hdrop
  exact hdrop

theorem Ordered.length (h : Ordered bars) : bars.length = (times bars).card := by
  have hnodup : (bars.map OhlcBar.timestamp).Nodup :=
    List.pairwise_map.mpr (h.imp fun hlt => hlt.ne)
  rw [times, List.toFinset_card_of_nodup hnodup, List.length_map]

end OhlcSeries

section Folding
variable {i : OhlcInterval} {trades : List TradeReport} {bars : OhlcSeries}

/-- The timestamps of the bars the trades fall into. -/
def seenTimes (i : OhlcInterval) (trades : List TradeReport) : Finset ℕ :=
  (trades.map (·.barTime i)).toFinset

/-- The bars are those of the newest timestamps, and each sums up all the trades in it. -/
structure FoldedFrom (i : OhlcInterval) (trades : List TradeReport) (bars : OhlcSeries) :
    Prop where
  ordered : bars.Ordered
  times : bars.times = newest maxBarsPerSeries (seenTimes i trades)
  sums : ∀ bar ∈ bars, bar.SumsUp (trades.filter (·.barTime i = bar.timestamp))

theorem FoldedFrom.empty (i : OhlcInterval) : FoldedFrom i [] [] where
  ordered := List.Pairwise.nil
  times := rfl
  sums := nofun

theorem FoldedFrom.next (h : FoldedFrom i trades bars) (t : TradeReport)
    (hq : t.quantity < 2 ^ 64) : FoldedFrom i (trades ++ [t])
      (.retain (.fold (t.barTime i) t.price t.quantity bars)) := by
  have hfold := h.ordered.fold (t.barTime i) t.price t.quantity
  have hseen : seenTimes i (trades ++ [t]) = insert (t.barTime i) (seenTimes i trades) := by
    simp [seenTimes, Finset.union_comm]
  have htimes : (OhlcSeries.retain (.fold (t.barTime i) t.price t.quantity bars)).times =
      newest maxBarsPerSeries (seenTimes i (trades ++ [t])) := by
    rw [hfold.times_retain, OhlcSeries.times_fold, h.times, newest_insert, hseen]
  refine ⟨hfold.sublist (OhlcSeries.retain_sublist _), htimes, fun bar hbar => ?_⟩
  have hone : ∀ time, [t].filter (·.barTime i = time) = if t.barTime i = time then [t] else [] := by
    intro time
    by_cases ht : t.barTime i = time <;> simp [ht]
  rw [List.filter_append, hone]
  rcases h.ordered.mem_fold ((OhlcSeries.retain_sublist _).subset hbar) with
    ⟨hold, hne⟩ | ⟨old, hold, hat, rfl⟩ | ⟨rfl, hnone⟩
  · rw [if_neg (Ne.symm hne), List.append_nil]
    exact h.sums bar hold
  · have hsums := h.sums old hold
    have hsame : (old.update t.price t.quantity).timestamp = old.timestamp := rfl
    rw [hsame, if_pos hat.symm]
    exact hsums.update t
  · -- a bar that was seen before and is not there was dropped, and does not come back
    have hfresh : t.barTime i ∉ seenTimes i trades := by
      intro hmem
      have hkept : t.barTime i ∈ newest maxBarsPerSeries (seenTimes i trades) := by
        rw [← Finset.insert_eq_of_mem hmem, ← hseen, ← htimes]
        exact OhlcSeries.mem_times.mpr ⟨_, hbar, rfl⟩
      rw [← h.times, OhlcSeries.mem_times] at hkept
      obtain ⟨b, hb, hat⟩ := hkept
      exact hnone b hb hat
    have hno : trades.filter (·.barTime i = t.barTime i) = [] := by
      rw [List.filter_eq_nil_iff]
      intro u hu heq
      apply hfresh
      simp only [seenTimes, List.mem_toFinset, List.mem_map]
      exact ⟨u, hu, of_decide_eq_true heq⟩
    have hbarTime : (OhlcBar.new (t.barTime i) t.price t.quantity).timestamp = t.barTime i := rfl
    rw [hbarTime, hno, if_pos rfl, List.nil_append]
    exact .new t hq _

end Folding

namespace OhlcAggregator

/-- A row of `record_trade` calls. -/
def recordTrades (self : OhlcAggregator) (trades : List TradeReport) : OhlcAggregator :=
  trades.foldl (fun bars t => bars.recordTrade t.symbol t.timestampMs t.price t.quantity) self

def seriesOf (self : OhlcAggregator) (symbol : String) (i : OhlcInterval) : OhlcSeries :=
  (self.lookup (symbol, i)).getD []

variable {trades : List TradeReport}

theorem recordTrades_folded (hq : ∀ t ∈ trades, t.quantity < 2 ^ 64) (symbol : String)
    (i : OhlcInterval) : FoldedFrom i (trades.filter (·.symbol = symbol))
      ((recordTrades ∅ trades).seriesOf symbol i) := by
  induction trades using List.reverseRecOn with
  | nil => exact .empty i
  | append_singleton trades t ih =>
    have hold := ih fun u hu => hq u (List.mem_append_left _ hu)
    have hqt : t.quantity < 2 ^ 64 := hq t (by simp)
    have hnext : recordTrades ∅ (trades ++ [t]) = (recordTrades ∅ trades).recordTrade t.symbol
        t.timestampMs t.price t.quantity := by
      simp [recordTrades]
    unfold seriesOf at hold ⊢
    rw [hnext, recordTrade_lookup, List.filter_append]
    by_cases hsym : t.symbol = symbol
    · subst hsym
      rw [if_pos rfl, Option.getD_some, List.filter_singleton]
      simpa [TradeReport.barTime] using hold.next t hqt
    · rw [if_neg (Ne.symm hsym), List.filter_singleton]
      simpa [hsym] using hold

/-- The series of a symbol and an interval, after any trades in any order: the bars of the newest
timestamps, as many as the cap allows, each the sum of all the trades that fell into it. A trade
changes no series of another symbol. -/
theorem series_fold_trades (hq : ∀ t ∈ trades, t.quantity < 2 ^ 64) (symbol : String)
    (i : OhlcInterval) :
    let own := trades.filter (·.symbol = symbol)
    let bars := (recordTrades ∅ trades).seriesOf symbol i
    bars.Pairwise (fun b b' => b.timestamp < b'.timestamp) ∧
    bars.length = min 2048 (seenTimes i own).card ∧
    (bars.map OhlcBar.timestamp).toFinset = newest 2048 (seenTimes i own) ∧
    (∀ bar ∈ bars, bar.SumsUp (own.filter (·.barTime i = bar.timestamp))) ∧
    ∀ t, t.symbol ≠ symbol → (recordTrades ∅ (trades ++ [t])).lookup (symbol, i) =
      (recordTrades ∅ trades).lookup (symbol, i) := by
  intro own bars
  have hfolded : FoldedFrom i own bars := recordTrades_folded hq symbol i
  have htimes : bars.times = newest 2048 (seenTimes i own) := hfolded.times
  refine ⟨hfolded.ordered, ?_, htimes, hfolded.sums, fun t hne => ?_⟩
  · rw [hfolded.ordered.length, htimes, card_newest]
  · have hnext : recordTrades ∅ (trades ++ [t]) = (recordTrades ∅ trades).recordTrade t.symbol
        t.timestampMs t.price t.quantity := by
      simp [recordTrades]
    rw [hnext, recordTrade_lookup, if_neg (Ne.symm hne)]

/-- A trade of the first minute arrives between two of the third. -/
def lateTrade : List TradeReport :=
  [⟨"X", 130000, 7, 1⟩, ⟨"X", 61000, 9, 2⟩, ⟨"X", 140000, 5, 4⟩]

theorem series_fold_trades_late :
    let bars := (recordTrades ∅ lateTrade).seriesOf "X" .oneMinute
    (∀ bar ∈ bars, bar.SumsUp ((lateTrade.filter (·.symbol = "X")).filter
      (·.barTime .oneMinute = bar.timestamp))) ∧
    bars = [⟨60, 9, 9, 9, 9, 2, 1⟩, ⟨120, 7, 7, 5, 5, 5, 2⟩] := by
  have hquantities : ∀ t ∈ lateTrade, t.quantity < 2 ^ 64 := by decide
  have hall := series_fold_trades hquantities "X" .oneMinute
  exact ⟨hall.2.2.2.1, by decide +kernel⟩

end OhlcAggregator
end OptionChainBackend
