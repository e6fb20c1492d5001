import OptionChainBackend.Api.Effects
import OptionChainBackend.Api.Stores
import OptionChainBackend.Foundation.Merges

/-!
`record_fills` in several requests at once. A store is locked for one write at a time, so between
two writes of one call those of others may come.
-/
namespace OptionChainBackend
open Foundation Upstream MarketMaker

/-- What a fill is written to: the four stores, the bars of each interval under their own lock, and
the trade stream. -/
inductive Store where
  | position | lastTrade
  | bars (i : OhlcInterval)
  | execution | stream
  deriving DecidableEq, Repr

/-- In the order `record_fills` visits them. -/
def Store.all : List Store :=
  [.position, .lastTrade] ++ OhlcInterval.all.map .bars ++ [.execution, .stream]

structure Recordings extends MarketData where
  tradeEvents : List TradeEvent

structure Write where
  store : Store
  entry : FillEntry

namespace FillEntry

def event (e : FillEntry) : TradeEvent :=
  ⟨e.id, e.symbol, e.fill.price, e.fill.quantity, e.fill.timestampMs, e.fill.makerOrderId,
    e.fill.takerOrderId⟩

def writes (e : FillEntry) : List Write := Store.all.map fun store => ⟨store, e⟩

end FillEntry

namespace FillCall

/-- A price beyond `u64` is skipped altogether. -/
def recordable (c : FillCall) : List FillEntry := c.entries.filter fun e => e.fill.price < 2 ^ 64

def writes (c : FillCall) : List Write := c.recordable.flatMap FillEntry.writes

theorem writes_cons (symbol underlying : String) (side : Side) (fill : ExecutedFill)
    (fills : List ExecutedFill) : writes ⟨symbol, underlying, side, fill :: fills⟩ =
      (if fill.price < 2 ^ 64 then FillEntry.writes ⟨symbol, underlying, side, fill⟩ else []) ++
        writes ⟨symbol, underlying, side, fills⟩ := by
  unfold writes recordable entries
  rw [List.map_cons, List.filter_cons]
  simp only [decide_eq_true_eq]
  split_ifs
  · rw [List.flatMap_cons]
  · rw [List.nil_append]

end FillCall

namespace Recordings

def empty : Recordings := ⟨.empty, []⟩

/-- One write, under the lock of its store. -/
def write (m : Recordings) (w : Write) : Recordings :=
  let e := w.entry
  match w.store with
  | .position =>
    { m with
      toMarketData := m.updatePositionOnFill e.symbol e.underlying e.side e.fill.quantity
        e.fill.price e.fill.timestampMs }
  | .lastTrade => { m with lastTrades := m.lastTrades.insert e.symbol e.lastTrade }
  | .bars i =>
    { m with
      ohlc := m.ohlc.updateBar e.symbol i (e.fill.timestampMs / 1000) e.fill.price
        e.fill.quantity }
  | .execution => { m with executions := m.executions.insert e.id e.execution }
  | .stream => { m with tradeEvents := m.tradeEvents ++ [e.event] }

theorem write_entry (m : Recordings) (e : FillEntry) :
    e.writes.foldl write m = ⟨m.enter e, m.tradeEvents ++ [e.event]⟩ := rfl

theorem write_entries (m : Recordings) (log : List FillEntry) :
    (log.flatMap FillEntry.writes).foldl write m =
      ⟨log.foldl .enter m.toMarketData, m.tradeEvents ++ log.map FillEntry.event⟩ := by
  induction log generalizing m with
  | nil => simp
  | cons e log ih =>
    rw [List.flatMap_cons, List.foldl_append, write_entry, ih]
    simp

end Recordings

namespace AppState
variable {B F : Type} [Upstream B] {s : AppState B F}

/-- What requests write their fills to. -/
def recordings (s : AppState B F) : Recordings := ⟨s.toMarketData, s.tradeEvents⟩

/-- A call with no other beside it makes its writes one after the other. -/
theorem recordFills_writes (s : AppState B F) (symbol underlying : String) (side : Side)
    (fills : List ExecutedFill) : (s.recordFills symbol underlying side fills).recordings =
      (FillCall.writes ⟨symbol, underlying, side, fills⟩).foldl .write s.recordings := by
  induction fills generalizing s with
  | nil => rfl
  | cons fill fills ih =>
    have hone : (s.recordFill symbol underlying side fill).recordings =
        (if fill.price < 2 ^ 64 then FillEntry.writes ⟨symbol, underlying, side, fill⟩ else []).foldl
          .write s.recordings := by
      unfold recordFill
      split_ifs <;> rfl
    rw [FillCall.writes_cons, List.foldl_append, ← hone]
    exact ih _

end AppState

section Concurrent

/-- Calls of `record_fills` under way, each with the writes it has still to make. -/
abbrev Recorders := Pool (Journal Recordings Write) (List Write)

namespace Recorders

def advance (p : Recorders) (i : ℕ) : Recorders := Pool.advance p i (Journal.make .write)

/-- The calls, and the turns in which they make their writes. -/
def run (m : Recordings) (calls : List FillCall) (turns : List ℕ) : Recorders :=
  turns.foldl advance ((calls.map FillCall.writes).foldl .start ⟨⟨m, []⟩, []⟩)

def Returned (p : Recorders) : Prop := ∀ row ∈ p.calls, row = []

instance (p : Recorders) : Decidable p.Returned := inferInstanceAs (Decidable (∀ row ∈ p.calls, row = []))

theorem run_keeps (m : Recordings) (calls : List FillCall) (turns : List ℕ) :
    Journal.Keeps .write m (calls.map FillCall.writes) (run m calls turns) := by
  have hstart := (Journal.Keeps.fresh .write m).starts (calls.map FillCall.writes)
  rw [List.nil_append] at hstart
  exact hstart.turns turns

end Recorders
end Concurrent

/-- The fill written, if the write is one to `store`. -/
def Write.inStore (store : Store) (w : Write) : Option FillEntry :=
  if w.store = store then some w.entry else none

theorem FillEntry.writes_inStore (e : FillEntry) (store : Store) :
    e.writes.filterMap (Write.inStore store) = [e] := by
  cases store with
  | bars i => cases i <;> rfl
  | _ => rfl

/-- A call writes each of its fills once to each store. -/
theorem FillCall.writes_inStore (c : FillCall) (store : Store) :
    c.writes.filterMap (Write.inStore store) = c.recordable := by
  unfold FillCall.writes
  induction c.recordable with
  | nil => rfl
  | cons e l ih => simp [List.filterMap_append, FillEntry.writes_inStore, ih]

namespace Write
variable {store store' : Store} {e e' : FillEntry}

theorem inStore_some (h : inStore store ⟨store', e⟩ = some e') : store' = store ∧ e' = e := by
  unfold inStore at h
  split_ifs at h with hs
  exact ⟨hs, (Option.some.inj h).symm⟩

theorem inStore_none (h : inStore store ⟨store', e⟩ = none) : store' ≠ store := by
  unfold inStore at h
  split_ifs at h with hs
  exact hs

end Write

namespace Recordings
variable {m : Recordings} {log : List Write} {store : Store}

/-- The fills written to a store, in the order they were. -/
def orderAt (log : List Write) (store : Store) : List FillEntry :=
  log.filterMap (Write.inStore store)

/-- A part of the stores that only the writes to one of them move, as recording a fill would. -/
theorem writes_part {τ : Type} (part : MarketData → τ)
    (hown : ∀ (m : Recordings) (m' : MarketData) e, part m.toMarketData = part m' →
      part (m.write ⟨store, e⟩).toMarketData = part (m'.enter e))
    (hother : ∀ (m : Recordings) store' e, store' ≠ store →
      part (m.write ⟨store', e⟩).toMarketData = part m.toMarketData) (log : List Write) :
    part (log.foldl write m).toMarketData =
      part ((orderAt log store).foldl .enter m.toMarketData) := by
  refine foldl_filterMap (R := fun (m : Recordings) m' => part m.toMarketData = part m') ?_ ?_ rfl log
  · rintro m m' ⟨store', e⟩ e' hw h
    obtain ⟨rfl, rfl⟩ := Write.inStore_some hw
    exact hown m m' e' h
  · rintro m m' ⟨store', e⟩ hw h
    rw [hother m store' e (Write.inStore_none hw), h]

theorem writes_positions (log : List Write) : (log.foldl write m).positions =
    ((orderAt log .position).foldl .enter m.toMarketData).positions := by
  apply writes_part MarketData.positions
  · intro m m' e h
    show m.positions.upsert _ _ _ = m'.positions.upsert _ _ _
    rw [h]
  · intro m store' e hs
    cases store' <;> first | rfl | exact absurd rfl hs

theorem writes_lastTrades (log : List Write) : (log.foldl write m).lastTrades =
    ((orderAt log .lastTrade).foldl .enter m.toMarketData).lastTrades := by
  apply writes_part MarketData.lastTrades
  · intro m m' e h
    exact congrArg (AList.insert e.symbol e.lastTrade) h
  · intro m store' e hs
    cases store' <;> first | rfl | exact absurd rfl hs

theorem writes_executions (log : List Write) : (log.foldl write m).executions =
    ((orderAt log .execution).foldl .enter m.toMarketData).executions := by
  apply writes_part MarketData.executions
  · intro m m' e h
    exact congrArg (AList.insert e.id e.execution) h
  · intro m store' e hs
    cases store' <;> first | rfl | exact absurd rfl hs

theorem updateBar_lookup (ohlc : OhlcAggregator) (symbol key : String) (i j : OhlcInterval)
    (timestampSecs price quantity : ℕ) :
    (ohlc.updateBar symbol i timestampSecs price quantity).lookup (key, j) =
      if key = symbol ∧ j = i then
        some (.retain (.fold (i.floorTimestamp timestampSecs) price quantity
          ((ohlc.lookup (symbol, i)).getD [])))
      else ohlc.lookup (key, j) := by
  simp [OhlcAggregator.updateBar]

theorem writes_bars (i : OhlcInterval) (log : List Write) :
    (fun symbol => (log.foldl write m).ohlc.lookup (symbol, i)) = fun symbol =>
      ((orderAt log (.bars i)).foldl .enter m.toMarketData).ohlc.lookup (symbol, i) := by
  apply writes_part fun m symbol => m.ohlc.lookup (symbol, i)
  · intro m m' e h
    funext symbol
    have hsymbol := congrFun h e.symbol
    show (m.ohlc.updateBar _ _ _ _ _).lookup _ = _
    rw [updateBar_lookup, MarketData.enter_ohlc, ← hsymbol, ← congrFun h symbol]
    simp only [and_true]
    rfl
  · intro m store' e hs
    funext symbol
    cases store' with
    | bars j =>
      have hj : i ≠ j := fun h => hs (h ▸ rfl)
      show (m.ohlc.updateBar _ _ _ _ _).lookup _ = _
      rw [updateBar_lookup, if_neg (fun h => hj h.2)]
    | _ => rfl

theorem writes_stream (log : List Write) : (log.foldl write m).tradeEvents =
    m.tradeEvents ++ (orderAt log .stream).map FillEntry.event := by
  induction log using List.reverseRecOn with
  | nil => simp [orderAt]
  | append_singleton log w ih =>
    obtain ⟨store, e⟩ := w
    rw [List.foldl_append, orderAt, List.filterMap_append, List.map_append, ← List.append_assoc,
      ← orderAt, ← ih]
    cases store <;> simp [write, Write.inStore]

end Recordings

namespace Recorders
variable {p : Recorders} {m : Recordings} {calls : List FillCall} {turns : List ℕ}

/-- Each store is as if the fills in `order` had been recorded one after the other. The orders of two
stores need not be the same. -/
structure AsIfInTurn (m m' : Recordings) (order : Store → List FillEntry) : Prop where
  positions : m'.positions = ((order .position).foldl .enter m.toMarketData).positions
  lastTrades : m'.lastTrades = ((order .lastTrade).foldl .enter m.toMarketData).lastTrades
  bars : ∀ i symbol, m'.ohlc.lookup (symbol, i) =
    ((order (.bars i)).foldl .enter m.toMarketData).ohlc.lookup (symbol, i)
  executions : m'.executions = ((order .execution).foldl .enter m.toMarketData).executions
  stream : m'.tradeEvents = m.tradeEvents ++ (order .stream).map FillEntry.event

theorem writes_asIfInTurn (m : Recordings) (log : List Write) :
    AsIfInTurn m (log.foldl .write m) (Recordings.orderAt log) where
  positions := Recordings.writes_positions log
  lastTrades := Recordings.writes_lastTrades log
  bars i symbol := congrFun (Recordings.writes_bars i log) symbol
  executions := Recordings.writes_executions log
  stream := Recordings.writes_stream log

theorem writes_inStore (calls : List FillCall) (store : Store) :
    (calls.map FillCall.writes).map (·.filterMap (Write.inStore store)) =
      calls.map FillCall.recordable := by
  rw [List.map_map]
  exact List.map_congr_left fun c _ => c.writes_inStore store

/-- Once every call returned, each store has had every fill of every call once, in an order that
keeps the order of each call. -/
theorem Keeps.orders (h : Journal.Keeps .write m (calls.map FillCall.writes) p)
    (hdone : p.Returned) (store : Store) :
    Merges.Whole (calls.map FillCall.recordable) (Recordings.orderAt p.shared.log store) := by
  have hwhole : Merges.Whole (calls.map FillCall.writes) p.shared.log := ⟨_, h.merges, hdone⟩
  have hstore := hwhole.filterMap (Write.inStore store)
  rw [writes_inStore] at hstore
  exact hstore

/-- However the writes of the calls fall between each other, each store ends as if the calls' fills
had been recorded one after the other. -/
theorem each_store_in_turn (hdone : (run m calls turns).Returned) : ∃ order : Store → List FillEntry,
    (∀ store, Merges.Whole (calls.map FillCall.recordable) (order store)) ∧
    AsIfInTurn m (run m calls turns).shared.state order := by
  have hkeeps := run_keeps m calls turns
  refine ⟨Recordings.orderAt (run m calls turns).shared.log, Keeps.orders hkeeps hdone, ?_⟩
  rw [hkeeps.state]
  exact writes_asIfInTurn m _

/-- Two calls for one symbol. -/
def twoCalls : List FillCall :=
  [⟨"BTC-20240329-50000-C", "BTC", .buy, [⟨100, 3, 60000, "t0", "taker", "maker"⟩]⟩,
    ⟨"BTC-20240329-50000-C", "BTC", .sell, [⟨90, 2, 60000, "t1", "taker", "maker"⟩]⟩]

/-- The second call's position and last trade, everything of the first call, then the rest. -/
def overtaken : List ℕ := List.replicate 2 1 ++ List.replicate 10 0 ++ List.replicate 8 1

theorem each_store_in_turn_two : ∃ order : Store → List FillEntry,
    (∀ store, Merges.Whole (twoCalls.map FillCall.recordable) (order store)) ∧
    AsIfInTurn .empty (run .empty twoCalls overtaken).shared.state order :=
  each_store_in_turn (by decide +kernel)

-- The last trade is of the first call, the close of the second: no one order explains both.
example : let m := (run .empty twoCalls overtaken).shared.state
    (m.lastTrades.lookup "BTC-20240329-50000-C").map LastTradeInfo.price = some 100 ∧
      (m.ohlc.lookup ("BTC-20240329-50000-C", .oneMinute)).map (·.map OhlcBar.close) =
        some [90] := by
  decide +kernel

end Recorders
end OptionChainBackend
