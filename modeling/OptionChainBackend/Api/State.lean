import OptionChainBackend.Api.Expiration
import OptionChainBackend.Api.Ohlc

/-!
The application state and what every handler does to it besides calling the books: publishing
level changes and recording executed fills (`state.rs`, the helpers of `handlers.rs`).
-/
namespace OptionChainBackend
open Foundation Upstream MarketMaker

/-- The stores `record_fills` writes. -/
structure MarketData where
  positions : Table String PositionInfo
  lastTrades : Table String LastTradeInfo
  executions : Table String ExecutionInfo
  ohlc : OhlcAggregator

/-- `OrderbookSubscriptionManager`, with everything it has broadcast, oldest first. -/
structure Subscriptions where
  sequences : Table String ℕ
  deltas : List OrderbookDeltaEvent
  tradeEvents : List TradeEvent

/-- `replacements` is history: the ids `modify_order` placed replacements under. -/
structure AppState (B F : Type) extends Desk B F, MarketData, Subscriptions where
  orders : Table String OrderInfo
  snapshots : Table String StoredSnapshot
  snapshotSeq : ℕ
  replacements : List OrderId

namespace Subscriptions

/-- The next sequence number of a symbol, and the counter moved on. -/
def nextSequence (f : Subscriptions) (symbol : String) : ℕ × Subscriptions :=
  let n := (f.sequences.lookup symbol).getD 0
  (n, { f with sequences := f.sequences.insert symbol (n + 1) })

def restingSideStr : Side → String
  | .buy => "bid"
  | .sell => "ask"

variable {B : Type} [Upstream B]

def levelVisibleQuantity (x : Exchange B) (a : OptionAddr) (side : Side) (price : ℕ) : ℕ :=
  ((x.getOrdersAtPrice a price side).map RestingOrder.visibleQuantity).foldl saturatingAddU64 0

def buildLevelDelta (symbol : String) (side : Side) (price newQuantity sequence : ℕ) :
    OrderbookDeltaEvent :=
  ⟨symbol, sequence, ⟨restingSideStr side, price, newQuantity⟩⟩

def publishLevelDelta (f : Subscriptions) (x : Exchange B) (a : OptionAddr) (side : Side)
    (price : ℕ) : Subscriptions :=
  let (sequence, f) := f.nextSequence (x.symbols a)
  { f with deltas := f.deltas ++
      [buildLevelDelta (x.symbols a) side price (levelVisibleQuantity x a side price) sequence] }

/-- One delta for each distinct maker price a taker on `takerSide` consumed. -/
def publishConsumedMakerDeltas (f : Subscriptions) (x : Exchange B) (a : OptionAddr)
    (takerSide : Side) (prices : List ℕ) : Subscriptions :=
  prices.eraseDups.foldl (fun f price => f.publishLevelDelta x a takerSide.opposite price) f

end Subscriptions

namespace MarketData

/-- A quantity in `i64`, signed from the taker's side. -/
def fillQuantity (side : Side) (quantity : ℕ) : ℤ :=
  match side with
  | .buy => i64 quantity
  | .sell => i64 (-i64 quantity)

def updatePositionOnFill (m : MarketData) (symbol underlying : String) (side : Side)
    (quantity price timestampMs : ℕ) : MarketData :=
  let q := fillQuantity side quantity
  { m with
    positions := m.positions.upsert symbol (fun pos => (pos.update q price timestampMs).1)
      (.new symbol underlying q price timestampMs) }

def executionInfo (symbol : String) (takerSide : Side) (fill : ExecutedFill) : ExecutionInfo where
  executionId := fill.tradeId
  orderId := fill.takerOrderId
  symbol := symbol
  side := takerSide
  price := fill.price
  quantity := fill.quantity
  timestampMs := fill.timestampMs
  counterpartyOrderId := some fill.makerOrderId
  isMaker := false
  fee := 0
  edge := none

/-- The four stores after one fill whose price fits `u64`. -/
def record (m : MarketData) (symbol underlying : String) (takerSide : Side)
    (fill : ExecutedFill) : MarketData :=
  let m := m.updatePositionOnFill symbol underlying takerSide fill.quantity fill.price
    fill.timestampMs
  { m with
    lastTrades := m.lastTrades.insert symbol
      ⟨symbol, fill.price, fill.quantity, takerSide, fill.timestampMs, fill.tradeId⟩
    ohlc := m.ohlc.recordTrade symbol fill.timestampMs fill.price fill.quantity
    executions := m.executions.insert fill.tradeId (executionInfo symbol takerSide fill) }

end MarketData

/-- What a submit path hands to `record_fills`. -/
def executedFills (B : Type) [Upstream B] (r : MatchResult) : List ExecutedFill :=
  r.trades.map fun t => ⟨t.price, t.quantity, t.timestamp, showTradeId B t.tradeId,
    showOrderId B t.takerOrderId, showOrderId B t.makerOrderId⟩

namespace AppState
variable {B F : Type} [Upstream B]

def new [F64 F] (quoter : Quoter F) : AppState B F where
  toDesk := .new quoter
  positions := ∅
  lastTrades := ∅
  executions := ∅
  ohlc := ∅
  sequences := ∅
  deltas := []
  tradeEvents := []
  orders := ∅
  snapshots := ∅
  snapshotSeq := 0
  replacements := []

def withMarket (s : AppState B F) (x : Exchange B) : AppState B F := { s with market := x }

def track (s : AppState B F) (info : OrderInfo) : AppState B F :=
  { s with orders := s.orders.insert info.orderId info }

def untrack (s : AppState B F) (key : String) : AppState B F :=
  { s with orders := s.orders.erase key }

def publishLevelDelta (s : AppState B F) (a : OptionAddr) (side : Side) (price : ℕ) :
    AppState B F :=
  { s with toSubscriptions := s.toSubscriptions.publishLevelDelta s.market a side price }

def publishConsumedMakerDeltas (s : AppState B F) (a : OptionAddr) (takerSide : Side)
    (prices : List ℕ) : AppState B F :=
  { s with toSubscriptions :=
      s.toSubscriptions.publishConsumedMakerDeltas s.market a takerSide prices }

/-- The engine hears of the fill when the maker's id can be read. -/
def notifyMaker (d : Desk B F) (fill : ExecutedFill) : Desk B F :=
  match parseOrderId B fill.makerOrderId with
  | some makerId => d.onOrderFilled makerId fill.price fill.quantity
  | none => d

/-- One round of `record_fills`; a price beyond `u64` is skipped altogether. -/
def recordFill (s : AppState B F) (symbol underlying : String) (takerSide : Side)
    (fill : ExecutedFill) : AppState B F :=
  if fill.price < 2 ^ 64 then
    { s with
      toMarketData := s.toMarketData.record symbol underlying takerSide fill
      toDesk := notifyMaker s.toDesk fill
      tradeEvents := s.tradeEvents ++ [⟨fill.tradeId, symbol, fill.price, fill.quantity,
        fill.timestampMs, fill.makerOrderId, fill.takerOrderId⟩] }
  else s

def recordFills (s : AppState B F) (symbol underlying : String) (takerSide : Side)
    (fills : List ExecutedFill) : AppState B F :=
  fills.foldl (fun s fill => s.recordFill symbol underlying takerSide fill) s

/-- What the submit paths do when a match executed something. -/
def recordMatch (s : AppState B F) (symbol underlying : String) (takerSide : Side)
    (r : MatchResult) : AppState B F :=
  if 0 < r.executedQuantity then
    s.recordFills symbol underlying takerSide (executedFills B r)
  else s

/-- The deltas of a match that consumed maker levels. -/
def publishMatch (s : AppState B F) (a : OptionAddr) (takerSide : Side) (r : MatchResult) :
    AppState B F :=
  if 0 < r.executedQuantity then
    s.publishConsumedMakerDeltas a takerSide (r.trades.map Trade.price)
  else s

/-- The delta of the level the remainder rests on. -/
def publishRest (s : AppState B F) (a : OptionAddr) (side : Side) (price : ℕ) (r : MatchResult) :
    AppState B F :=
  if 0 < r.remainingQuantity then s.publishLevelDelta a side price else s

/-- What follows an accepted limit order. -/
def reportLimit (s : AppState B F) (symbol underlying : String) (a : OptionAddr) (side : Side)
    (price : ℕ) (r : MatchResult) : AppState B F :=
  ((s.recordMatch symbol underlying side r).publishMatch a side r).publishRest a side price r

/-- `cleanup_old_orders`. -/
def cleanupOldOrders (s : AppState B F) (maxAgeSecs : ℕ) : ℕ × AppState B F :=
  let threshold : ℤ := s.market.now - maxAgeSecs * 1000
  let keys := (s.orders.select fun _ o =>
    (o.status = .filled || o.status = .canceled) && decide ((o.updatedAtMs : ℤ) < threshold)
    ).map Prod.fst
  (keys.length, keys.foldl untrack s)

section Snapshots

def maxRetainedSnapshots : ℕ := 16

/-- The oldest stored snapshot, by creation time and then by sequence. -/
def oldestSnapshot : List (String × StoredSnapshot) → Option (String × StoredSnapshot)
  | [] => none
  | e :: es =>
    match oldestSnapshot es with
    | none => some e
    | some e' =>
      if e'.2.createdAtMs < e.2.createdAtMs ∨
          e'.2.createdAtMs = e.2.createdAtMs ∧ e'.2.seq < e.2.seq then some e'
      else some e

def evictOldest (snapshots : Table String StoredSnapshot) : Table String StoredSnapshot :=
  match oldestSnapshot (snapshots.select fun _ _ => true) with
  | some (key, _) => snapshots.erase key
  | none => snapshots

/-- `insert_snapshot_bounded`. -/
def insertSnapshotBounded (s : AppState B F) (id : String) (snapshot : StoredSnapshot) :
    AppState B F :=
  let snapshots := s.snapshots.insert id snapshot
  { s with snapshots := evictOldest^[snapshots.keys.length - maxRetainedSnapshots] snapshots }

end Snapshots

section Frames
variable {s s' s'' : AppState B F}

/-- What publishing and recording leave alone. -/
structure Reported (s s' : AppState B F) : Prop where
  market : s'.market = s.market
  quoted : s'.quoted = s.quoted
  orders : s'.orders = s.orders
  snapshots : s'.snapshots = s.snapshots
  replacements : s'.replacements = s.replacements

omit [Upstream B] in
theorem Reported.refl (s : AppState B F) : Reported s s := ⟨rfl, rfl, rfl, rfl, rfl⟩

omit [Upstream B] in
theorem Reported.trans (h : Reported s s') (h' : Reported s' s'') : Reported s s'' where
  market := h'.market.trans h.market
  quoted := h'.quoted.trans h.quoted
  orders := h'.orders.trans h.orders
  snapshots := h'.snapshots.trans h.snapshots
  replacements := h'.replacements.trans h.replacements

theorem publishLevelDelta_reported (a : OptionAddr) (side : Side) (price : ℕ) :
    Reported s (s.publishLevelDelta a side price) := ⟨rfl, rfl, rfl, rfl, rfl⟩

theorem publishMatch_reported (a : OptionAddr) (side : Side) (r : MatchResult) :
    Reported s (s.publishMatch a side r) := by
  unfold publishMatch
  split_ifs
  · exact ⟨rfl, rfl, rfl, rfl, rfl⟩
  · exact .refl s

theorem publishRest_reported (a : OptionAddr) (side : Side) (price : ℕ) (r : MatchResult) :
    Reported s (s.publishRest a side price r) := by
  unfold publishRest
  split_ifs
  · exact publishLevelDelta_reported a side price
  · exact .refl s

theorem notifyMaker_market (d : Desk B F) (fill : ExecutedFill) :
    (notifyMaker d fill).market = d.market := by
  unfold notifyMaker
  split <;> rfl

theorem notifyMaker_quoted (d : Desk B F) (fill : ExecutedFill) :
    (notifyMaker d fill).quoted = d.quoted := by
  unfold notifyMaker
  split <;> rfl

theorem recordFill_reported (symbol underlying : String) (side : Side) (fill : ExecutedFill) :
    Reported s (s.recordFill symbol underlying side fill) := by
  unfold recordFill
  split_ifs
  · exact ⟨notifyMaker_market _ _, notifyMaker_quoted _ _, rfl, rfl, rfl⟩
  · exact .refl s

theorem recordFills_reported (symbol underlying : String) (side : Side)
    (fills : List ExecutedFill) : Reported s (s.recordFills symbol underlying side fills) := by
  unfold recordFills
  apply List.foldlRecOn (motive := fun s' => Reported s s')
  · exact .refl s
  · intro s' hs' fill _
    exact hs'.trans (recordFill_reported _ _ _ _)

theorem recordMatch_reported (symbol underlying : String) (side : Side) (r : MatchResult) :
    Reported s (s.recordMatch symbol underlying side r) := by
  unfold recordMatch
  split_ifs
  · exact recordFills_reported _ _ _ _
  · exact .refl s

theorem reportLimit_reported (symbol underlying : String) (a : OptionAddr) (side : Side)
    (price : ℕ) (r : MatchResult) :
    Reported s (s.reportLimit symbol underlying a side price r) :=
  ((recordMatch_reported _ _ _ _).trans (publishMatch_reported _ _ _)).trans
    (publishRest_reported _ _ _ _)

end Frames
end AppState
end OptionChainBackend
