import OptionChainBackend.Api.Bars
import OptionChainBackend.Api.Ledger

/-!
The four stores `record_fills` writes, over any row of calls: each holds of a symbol what the fills
recorded under it come to.
-/
namespace OptionChainBackend
open Foundation Upstream MarketMaker

/-- A call of `record_fills`. -/
structure FillCall where
  symbol : String
  underlying : String
  side : Side
  fills : List ExecutedFill

/-- A fill, and what its call says of it. -/
structure FillEntry where
  symbol : String
  underlying : String
  side : Side
  fill : ExecutedFill

def FillCall.entries (c : FillCall) : List FillEntry :=
  c.fills.map fun fill => ⟨c.symbol, c.underlying, c.side, fill⟩

def entriesOf (calls : List FillCall) : List FillEntry := calls.flatMap FillCall.entries

namespace FillEntry

def id (e : FillEntry) : String := e.fill.tradeId

def lastTrade (e : FillEntry) : LastTradeInfo :=
  ⟨e.symbol, e.fill.price, e.fill.quantity, e.side, e.fill.timestampMs, e.fill.tradeId⟩

def execution (e : FillEntry) : ExecutionInfo := MarketData.executionInfo e.symbol e.side e.fill

end FillEntry

section Log
variable {log : List FillEntry} {e : FillEntry} {symbol : String}

/-- The fills of a symbol, in the order they were recorded. -/
def fillsOf (log : List FillEntry) (symbol : String) : List ExecutedFill :=
  (log.filter fun e => e.symbol = symbol).map FillEntry.fill

def quantityOf (log : List FillEntry) (symbol : String) : ℕ :=
  ((fillsOf log symbol).map ExecutedFill.quantity).sum

/-- What the fills of a symbol add up to, each signed by its taker's side. -/
def netOf (log : List FillEntry) (symbol : String) : ℤ :=
  total (fun e => signed e.side e.fill.quantity) (fun e => e.symbol = symbol) log

theorem fillsOf_concat : fillsOf (log ++ [e]) symbol =
    fillsOf log symbol ++ if e.symbol = symbol then [e.fill] else [] := by
  by_cases h : e.symbol = symbol <;> simp [fillsOf, h]

theorem quantityOf_concat : quantityOf (log ++ [e]) symbol =
    quantityOf log symbol + if e.symbol = symbol then e.fill.quantity else 0 := by
  by_cases h : e.symbol = symbol <;> simp [quantityOf, fillsOf_concat, h]

theorem netOf_concat : netOf (log ++ [e]) symbol =
    netOf log symbol + if e.symbol = symbol then signed e.side e.fill.quantity else 0 := by
  simp [netOf, total_append, total_cons]

theorem natAbs_netOf_le : (netOf log symbol).natAbs ≤ quantityOf log symbol := by
  induction log using List.reverseRecOn with
  | nil => simp [netOf]
  | append_singleton log e ih =>
    have habs := natAbs_signed e.side e.fill.quantity
    rw [netOf_concat, quantityOf_concat]
    split_ifs <;> omega

end Log

namespace MarketData
variable {m : MarketData} {log : List FillEntry} {e : FillEntry} {symbol : String}

def empty : MarketData := ⟨∅, ∅, ∅, ∅⟩

def enter (m : MarketData) (e : FillEntry) : MarketData :=
  m.record e.symbol e.underlying e.side e.fill

/-- The stores after a log of fills. -/
def posted (log : List FillEntry) : MarketData := log.foldl enter empty

theorem posted_concat : posted (log ++ [e]) = (posted log).enter e := by
  simp [posted]

theorem enter_positions : (m.enter e).positions.lookup symbol = if symbol = e.symbol then
      some (((m.positions.lookup e.symbol).map fun pos =>
          (pos.update (fillQuantity e.side e.fill.quantity) e.fill.price e.fill.timestampMs).1).getD
        (.new e.symbol e.underlying (fillQuantity e.side e.fill.quantity) e.fill.price
          e.fill.timestampMs))
    else m.positions.lookup symbol := by
  simp [enter, record, updatePositionOnFill]

theorem enter_lastTrades : (m.enter e).lastTrades.lookup symbol =
    if symbol = e.symbol then some e.lastTrade else m.lastTrades.lookup symbol := by
  simp [enter, record, updatePositionOnFill, FillEntry.lastTrade]

theorem enter_executions (id : String) : (m.enter e).executions.lookup id =
    if id = e.id then some e.execution else m.executions.lookup id := record_executions

theorem enter_ohlc (i : OhlcInterval) : (m.enter e).ohlc.lookup (symbol, i) =
    if symbol = e.symbol then
      some (.retain (.fold (barTime i e.fill) e.fill.price e.fill.quantity
        ((m.ohlc.lookup (e.symbol, i)).getD [])))
    else m.ohlc.lookup (symbol, i) := OhlcAggregator.recordTrade_lookup _ _ _

theorem posted_held (hq : quantityOf log symbol < 2 ^ 63) :
    (posted log).held symbol = netOf log symbol := by
  induction log using List.reverseRecOn with
  | nil => rfl
  | append_singleton log e ih =>
    rw [quantityOf_concat] at hq
    have hheld := ih (by omega)
    have habs : (netOf log symbol).natAbs ≤ quantityOf log symbol := natAbs_netOf_le
    rw [posted_concat, netOf_concat]
    by_cases hs : e.symbol = symbol
    · rw [if_pos hs] at hq ⊢
      subst hs
      unfold enter
      rw [record_held (by omega), if_pos rfl, hheld]
    · have hother : ((posted log).enter e).held symbol = (posted log).held symbol := by
        unfold held
        rw [enter_positions, if_neg (Ne.symm hs)]
      rw [hother, hheld, if_neg hs, add_zero]

theorem posted_positions_isSome :
    ((posted log).positions.lookup symbol).isSome ↔ fillsOf log symbol ≠ [] := by
  induction log using List.reverseRecOn with
  | nil => simp [posted, empty, fillsOf]
  | append_singleton log e ih =>
    rw [posted_concat, enter_positions, fillsOf_concat]
    by_cases hs : e.symbol = symbol
    · simp [hs]
    · simpa [hs, Ne.symm hs] using ih

/-- A symbol has a position when it has a fill, and its quantity is what its fills add up to. -/
theorem posted_position (hq : quantityOf log symbol < 2 ^ 63) :
    ((posted log).positions.lookup symbol).map PositionInfo.quantity =
      if fillsOf log symbol = [] then none else some (netOf log symbol) := by
  have hsome : ((posted log).positions.lookup symbol).isSome ↔ fillsOf log symbol ≠ [] :=
    posted_positions_isSome
  have hheld := posted_held hq
  unfold held at hheld
  cases hp : (posted log).positions.lookup symbol with
  | none =>
    rw [hp] at hsome
    have hnil : fillsOf log symbol = [] := by simpa using hsome
    simp [hnil]
  | some pos =>
    rw [hp] at hsome hheld
    have hne : fillsOf log symbol ≠ [] := by simpa using hsome
    rw [if_neg hne, ← hheld]
    rfl

theorem posted_lastTrade : (posted log).lastTrades.lookup symbol =
    ((log.filter fun e => e.symbol = symbol).getLast?).map FillEntry.lastTrade := by
  induction log using List.reverseRecOn with
  | nil => rfl
  | append_singleton log e ih =>
    rw [posted_concat, enter_lastTrades, List.filter_append]
    by_cases hs : e.symbol = symbol
    · simp [hs]
    · simpa [hs, Ne.symm hs] using ih

/-- The executions are those of the fills. -/
theorem posted_execution (hids : (log.map FillEntry.id).Nodup) {id : String}
    {info : ExecutionInfo} : (posted log).executions.lookup id = some info ↔
      ∃ e ∈ log, e.id = id ∧ e.execution = info := by
  induction log using List.reverseRecOn with
  | nil => simp [posted, empty]
  | append_singleton log e ih =>
    rw [List.map_append, List.nodup_append'] at hids
    have hnew : ∀ e' ∈ log, e'.id ≠ e.id := by
      intro e' he' heq
      exact hids.2.2 (List.mem_map_of_mem he') (by simp [heq])
    rw [posted_concat, enter_executions]
    constructor
    · intro h
      split_ifs at h with hid
      · exact ⟨e, by simp, hid.symm, Option.some.inj h⟩
      · obtain ⟨e', he', h⟩ := (ih hids.1).mp h
        exact ⟨e', List.mem_append_left _ he', h⟩
    · rintro ⟨e', he', rfl, rfl⟩
      rcases List.mem_append.mp he' with he' | he'
      · rw [if_neg (hnew e' he')]
        exact (ih hids.1).mpr ⟨e', he', rfl, rfl⟩
      · obtain rfl := List.mem_singleton.mp he'
        rw [if_pos rfl]

theorem posted_executions_none (hids : ((log ++ [e]).map FillEntry.id).Nodup) :
    (posted log).executions.lookup e.id = none := by
  rw [List.map_append, List.nodup_append'] at hids
  cases h : (posted log).executions.lookup e.id with
  | none => rfl
  | some info =>
    obtain ⟨e', he', hid, -⟩ := (posted_execution hids.1).mp h
    exact absurd (by simp [hid]) (hids.2.2 (List.mem_map_of_mem he'))

theorem posted_executions_size (hids : (log.map FillEntry.id).Nodup) :
    (posted log).executions.size = log.length := by
  induction log using List.reverseRecOn with
  | nil => rfl
  | append_singleton log e ih =>
    have hnone := posted_executions_none hids
    rw [List.map_append, List.nodup_append'] at hids
    have hsize := Table.size_insert_new hnone e.execution
    rw [posted_concat, List.length_append, ← ih hids.1]
    exact hsize

theorem posted_ohlc (i : OhlcInterval) : (posted log).ohlc.lookup (symbol, i) =
    if fillsOf log symbol = [] then none else some (seriesOf i (fillsOf log symbol)) := by
  induction log using List.reverseRecOn with
  | nil => rfl
  | append_singleton log e ih =>
    rw [posted_concat, enter_ohlc, fillsOf_concat]
    by_cases hs : e.symbol = symbol
    · subst hs
      have hne : fillsOf log e.symbol ++ [e.fill] ≠ [] := by simp
      simp only [if_true, if_neg hne, ih, seriesOf_concat]
      split_ifs with hnil
      · rw [hnil]
        rfl
      · rfl
    · simpa [hs, Ne.symm hs] using ih

/-- The stores hold of the symbol what they held. -/
structure SameFor (symbol : String) (m m' : MarketData) : Prop where
  position : m'.positions.lookup symbol = m.positions.lookup symbol
  lastTrade : m'.lastTrades.lookup symbol = m.lastTrades.lookup symbol
  executions : ∀ id info, info.symbol = symbol →
    (m'.executions.lookup id = some info ↔ m.executions.lookup id = some info)
  bars : ∀ i, m'.ohlc.lookup (symbol, i) = m.ohlc.lookup (symbol, i)

theorem SameFor.refl (m : MarketData) : SameFor symbol m m :=
  ⟨rfl, rfl, fun _ _ _ => Iff.rfl, fun _ => rfl⟩

theorem SameFor.trans {m' m'' : MarketData} (h : SameFor symbol m m')
    (h' : SameFor symbol m' m'') : SameFor symbol m m'' where
  position := h'.position.trans h.position
  lastTrade := h'.lastTrade.trans h.lastTrade
  executions id info hi := (h'.executions id info hi).trans (h.executions id info hi)
  bars i := (h'.bars i).trans (h.bars i)

/-- A fill of another symbol, under a new id. -/
theorem enter_sameFor (hs : e.symbol ≠ symbol) (hnew : m.executions.lookup e.id = none) :
    SameFor symbol m (m.enter e) where
  position := by rw [enter_positions, if_neg (Ne.symm hs)]
  lastTrade := by rw [enter_lastTrades, if_neg (Ne.symm hs)]
  executions id info hi := by
    rw [enter_executions]
    split_ifs with hid
    · subst hid
      rw [hnew]
      constructor
      · intro h
        exact absurd ((congrArg ExecutionInfo.symbol (Option.some.inj h)).trans hi) hs
      · intro h
        cases h
    · exact Iff.rfl
  bars i := by rw [enter_ohlc, if_neg (Ne.symm hs)]

theorem posted_sameFor {later : List FillEntry} (hids : ((log ++ later).map FillEntry.id).Nodup)
    (hs : ∀ e ∈ later, e.symbol ≠ symbol) : SameFor symbol (posted log) (posted (log ++ later)) := by
  induction later using List.reverseRecOn with
  | nil =>
    rw [List.append_nil]
    exact .refl _
  | append_singleton later e ih =>
    rw [← List.append_assoc] at hids ⊢
    have hprefix : ((log ++ later).map FillEntry.id).Nodup := by
      rw [List.map_append] at hids
      exact hids.of_append_left
    have hsame := ih hprefix fun e' he' => hs e' (List.mem_append_left _ he')
    rw [posted_concat]
    exact hsame.trans (enter_sameFor (hs e (by simp)) (posted_executions_none hids))

/-- What the four stores hold of a symbol is what its fills come to. -/
structure Agrees (m : MarketData) (log : List FillEntry) (symbol : String) : Prop where
  position : (m.positions.lookup symbol).map PositionInfo.quantity =
    if fillsOf log symbol = [] then none else some (netOf log symbol)
  lastTrade : m.lastTrades.lookup symbol =
    ((log.filter fun e => e.symbol = symbol).getLast?).map FillEntry.lastTrade
  executions : ∀ id info, info.symbol = symbol →
    (m.executions.lookup id = some info ↔ ∃ e ∈ log, e.id = id ∧ e.execution = info)
  volume : ∀ i, (barTimes i (fillsOf log symbol)).length ≤ maxBarsPerSeries →
    OhlcSeries.volume ((m.ohlc.lookup (symbol, i)).getD []) = quantityOf log symbol
  trades : ∀ i, (barTimes i (fillsOf log symbol)).length ≤ maxBarsPerSeries →
    ((∀ fill ∈ fillsOf log symbol, 0 < fill.quantity) ∨
      ∀ t, fillsInBar i (fillsOf log symbol) t < 2 ^ 64) →
    OhlcSeries.trades ((m.ohlc.lookup (symbol, i)).getD []) = (fillsOf log symbol).length

theorem posted_series (i : OhlcInterval) :
    ((posted log).ohlc.lookup (symbol, i)).getD [] = seriesOf i (fillsOf log symbol) := by
  rw [posted_ohlc]
  split_ifs with hnil
  · rw [hnil]
    rfl
  · rfl

theorem posted_agrees (hids : (log.map FillEntry.id).Nodup) (hq : quantityOf log symbol < 2 ^ 63) :
    Agrees (posted log) log symbol where
  position := posted_position hq
  lastTrade := posted_lastTrade
  executions id info _ := posted_execution hids
  volume i hcap := by
    rw [posted_series]
    exact seriesOf_volume hcap (by unfold quantityOf at hq; omega)
  trades i hcap hcount := by
    rw [posted_series]
    apply seriesOf_trades hcap
    rcases hcount with hpos | hcount
    · intro t
      have hle : fillsInBar i (fillsOf log symbol) t ≤ quantityOf log symbol := fillsInBar_le hpos t
      omega
    · exact hcount

end MarketData

namespace AppState
variable {B F : Type} [Upstream B] {s : AppState B F} {calls : List FillCall}

def recordCalls (s : AppState B F) (calls : List FillCall) : AppState B F :=
  calls.foldl (fun s c => s.recordFills c.symbol c.underlying c.side c.fills) s

/-- The stores read nothing but themselves. -/
theorem recordCalls_data (hprice : ∀ e ∈ entriesOf calls, e.fill.price < 2 ^ 64) :
    (s.recordCalls calls).toMarketData = (entriesOf calls).foldl .enter s.toMarketData := by
  induction calls generalizing s with
  | nil => rfl
  | cons c calls ih =>
    have hrest : ∀ e ∈ entriesOf calls, e.fill.price < 2 ^ 64 := by
      intro e he
      exact hprice e (by simpa [entriesOf] using .inr (by simpa [entriesOf] using he))
    have hone : (s.recordFills c.symbol c.underlying c.side c.fills).toMarketData =
        c.entries.foldl .enter s.toMarketData := by
      rw [recordFills_data, FillCall.entries, List.foldl_map]
      apply List.foldl_ext
      intro m fill hfill
      rw [if_pos]
      · rfl
      · exact hprice ⟨c.symbol, c.underlying, c.side, fill⟩
          (List.mem_append_left _ (List.mem_map.mpr ⟨fill, hfill, rfl⟩))
    show ((s.recordFills c.symbol c.underlying c.side c.fills).recordCalls calls).toMarketData =
      (c.entries ++ entriesOf calls).foldl .enter s.toMarketData
    rw [ih hrest, hone, List.foldl_append]

/-- A call with two fills under one key, then one the other way under another. -/
def threeFills : List FillCall :=
  [⟨"BTC-20240329-50000-C", "BTC", .buy,
      [⟨100, 3, 60000, "t0", "taker", "maker"⟩, ⟨101, 2, 120000, "t1", "taker", "maker"⟩]⟩,
    ⟨"ETH-20240329-3000-P", "ETH", .sell, [⟨7, 4, 60000, "t2", "taker", "maker"⟩]⟩]

section Saturation

/-- A fill of nothing, under its own trade id. -/
def zeroFill (n : ℕ) : ExecutedFill :=
  ⟨1, 0, 0, showTradeId ReferenceBook n, "taker", "maker"⟩

/-- A call with `n` fills of nothing. -/
def zeroCall (n : ℕ) : FillCall :=
  ⟨"BTC-20240329-50000-C", "BTC", .buy, (List.range n).map zeroFill⟩

theorem fillsOf_zeroCall (n : ℕ) :
    fillsOf (entriesOf [zeroCall n]) "BTC-20240329-50000-C" = (List.range n).map zeroFill := by
  simp [entriesOf, FillCall.entries, zeroCall, fillsOf, List.filter_map, Function.comp_def]

end Saturation
end AppState
end OptionChainBackend
