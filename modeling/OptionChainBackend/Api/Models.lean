import OptionChainBackend.MarketMaker.Engine

/-! The records the REST handlers store, receive and return: `models.rs` and `error.rs`. -/
namespace OptionChainBackend
open MarketMaker

inductive ApiError where
  | underlyingNotFound (underlying : String)
  | expirationNotFound (expiration : String)
  | strikeNotFound (strike : ℕ)
  | invalidRequest (message : String)
  | internal (message : String)
  | orderBook (message : String)
  | notFound (message : String)
  | unauthorized (message : String)
  | forbidden (message : String)
  | rateLimitExceeded (limit remaining reset retryAfter : ℕ)
  deriving DecidableEq, Repr

inductive OrderStatus where
  | pending | active | partialFill | filled | canceled
  deriving DecidableEq, Repr

inductive OrderTimeInForce where
  | gtc | ioc | fok | gtd
  deriving DecidableEq, Repr

structure OrderFillInfo where
  price : ℕ
  quantity : ℕ
  timestampMs : ℕ
  deriving DecidableEq, Repr

structure OrderInfo where
  orderId : String
  symbol : String
  underlying : String
  expiration : String
  strike : ℕ
  style : String
  side : Side
  price : ℕ
  originalQuantity : ℕ
  remainingQuantity : ℕ
  filledQuantity : ℕ
  status : OrderStatus
  timeInForce : OrderTimeInForce
  createdAtMs : ℕ
  updatedAtMs : ℕ
  fills : List OrderFillInfo
  deriving DecidableEq, Repr

/-- `UNDERLYING-EXPIRATION-STRIKE-STYLE`. -/
def symbolOf (underlying expiration : String) (strike : ℕ) (style : OptionStyle) : String :=
  underlying ++ "-" ++ expiration ++ "-" ++ toString strike ++ "-" ++ Desk.styleChar style

namespace MatchResult

/-- The status every submit path derives from a match. -/
def orderStatus (r : MatchResult) : OrderStatus :=
  if r.isComplete then .filled else if 0 < r.executedQuantity then .partialFill else .active

def orderFills (r : MatchResult) : List OrderFillInfo :=
  r.trades.map fun t => ⟨t.price, t.quantity, t.timestamp⟩

end MatchResult

section Positions

structure PositionInfo where
  symbol : String
  underlying : String
  quantity : ℤ
  averagePrice : ℕ
  realizedPnl : ℤ
  createdAtMs : ℕ
  updatedAtMs : ℕ
  deriving DecidableEq, Repr

def i64Max : ℤ := 2 ^ 63 - 1
def i64Min : ℤ := -2 ^ 63

/-- `i64::saturating_add`. -/
def saturatingAdd (a b : ℤ) : ℤ := max i64Min (min i64Max (a + b))

def checkedU128 (n : ℕ) : Option ℕ := if n < 2 ^ 128 then some n else none

def checkedI128 (n : ℤ) : Option ℤ := if -2 ^ 127 ≤ n ∧ n < 2 ^ 127 then some n else none

namespace PositionInfo

def new (symbol underlying : String) (quantity : ℤ) (price timestampMs : ℕ) : PositionInfo :=
  ⟨symbol, underlying, quantity, price, 0, timestampMs, timestampMs⟩

/-- The size-weighted entry price after adding to the position; saturates on overflow. -/
def averageAfter (self : PositionInfo) (fillQuantity : ℤ) (fillPrice : ℕ) : ℕ :=
  let oldQty := self.quantity.natAbs
  let addQty := fillQuantity.natAbs
  if 0 < oldQty + addQty then
    match (do
      let oldValue ← checkedU128 (self.averagePrice * oldQty)
      let newValue ← checkedU128 (fillPrice * addQty)
      checkedU128 (oldValue + newValue)) with
    | some sum => sum / (oldQty + addQty)
    | none => 2 ^ 128 - 1
  else self.averagePrice

/-- The realized P&L of a fill against the position; saturates toward its sign. -/
def realizedOn (self : PositionInfo) (fillQuantity : ℤ) (fillPrice : ℕ) : ℤ :=
  let closeQuantity : ℤ := min fillQuantity.natAbs self.quantity.natAbs
  let exact := do
    let price ← checkedI128 fillPrice
    let average ← checkedI128 self.averagePrice
    let diff ← checkedI128 (price - average)
    let signed ← if 0 < self.quantity then some diff else checkedI128 (-diff)
    let value ← checkedI128 (signed * closeQuantity)
    if i64Min ≤ value ∧ value ≤ i64Max then some value else none
  match exact with
  | some value => value
  | none =>
    if (0 < self.quantity ∧ self.averagePrice < fillPrice) ∨
        (¬ 0 < self.quantity ∧ fillPrice < self.averagePrice) then i64Max
    else i64Min

def sameDirection (a b : ℤ) : Bool := decide (0 < a ∧ 0 < b) || decide (a < 0 ∧ b < 0)

/-- `PositionInfo::update`; returns the realized P&L of the fill. -/
def update (self : PositionInfo) (fillQuantity : ℤ) (fillPrice timestampMs : ℕ) :
    PositionInfo × ℤ :=
  let quantity := saturatingAdd self.quantity fillQuantity
  if sameDirection self.quantity fillQuantity || decide (self.quantity = 0) then
    ({ self with
      averagePrice := self.averageAfter fillQuantity fillPrice
      quantity := quantity
      updatedAtMs := timestampMs }, 0)
  else
    let realized := self.realizedOn fillQuantity fillPrice
    ({ self with
      realizedPnl := saturatingAdd self.realizedPnl realized
      quantity := quantity
      averagePrice := if sameDirection quantity fillQuantity then fillPrice else self.averagePrice
      updatedAtMs := timestampMs }, realized)

@[simp] theorem new_quantity (symbol underlying : String) (q : ℤ) (p t : ℕ) :
    (new symbol underlying q p t).quantity = q := rfl

@[simp] theorem update_quantity (self : PositionInfo) (q : ℤ) (p t : ℕ) :
    (self.update q p t).1.quantity = saturatingAdd self.quantity q := by
  unfold update
  dsimp only
  split_ifs <;> rfl

end PositionInfo

theorem saturatingAdd_of_mem {a b : ℤ} (h0 : i64Min ≤ a + b) (h1 : a + b ≤ i64Max) :
    saturatingAdd a b = a + b := by
  unfold saturatingAdd
  omega

end Positions

section MarketData

structure LastTradeInfo where
  symbol : String
  price : ℕ
  quantity : ℕ
  side : Side
  timestampMs : ℕ
  tradeId : String
  deriving DecidableEq, Repr

/-- `edge` is `None` and `fee` is 0 on every path that records a fill. -/
structure ExecutionInfo where
  executionId : String
  orderId : String
  symbol : String
  side : Side
  price : ℕ
  quantity : ℕ
  timestampMs : ℕ
  counterpartyOrderId : Option String
  isMaker : Bool
  fee : ℕ
  edge : Option ℤ
  deriving DecidableEq, Repr

structure PriceLevelChange where
  side : String
  price : ℕ
  quantity : ℕ
  deriving DecidableEq, Repr

structure OrderbookDeltaEvent where
  symbol : String
  sequence : ℕ
  change : PriceLevelChange
  deriving DecidableEq, Repr

structure TradeEvent where
  tradeId : String
  symbol : String
  price : ℕ
  quantity : ℕ
  timestampMs : ℕ
  makerOrderId : String
  takerOrderId : String
  deriving DecidableEq, Repr

/-- A fill in the units the market-data stores speak. -/
structure ExecutedFill where
  price : ℕ
  quantity : ℕ
  timestampMs : ℕ
  tradeId : String
  takerOrderId : String
  makerOrderId : String
  deriving DecidableEq, Repr

structure OrderbookSnapshotInfo where
  snapshotId : String
  underlying : String
  expiration : String
  strike : ℕ
  style : String
  orderCount : ℕ
  bidLevels : ℕ
  askLevels : ℕ
  data : String
  createdAt : ℕ
  deriving DecidableEq, Repr

/-- `seq` breaks ties between snapshots of one millisecond. -/
structure StoredSnapshot where
  createdAtMs : ℕ
  infos : List OrderbookSnapshotInfo
  seq : ℕ
  deriving DecidableEq, Repr

end MarketData

section Requests

/-- The path segments that address an option book. -/
structure OptionPath where
  underlying : String
  expStr : String
  strike : ℕ
  style : String
  deriving DecidableEq, Repr

structure AddOrderRequest where
  side : Side
  price : ℕ
  quantity : ℕ
  timeInForce : Option OrderTimeInForce
  expireAt : Option String
  deriving DecidableEq, Repr

inductive LimitOrderStatus where
  | accepted | filled | partialFill | rejected
  deriving DecidableEq, Repr

structure AddOrderResponse where
  orderId : String
  status : LimitOrderStatus
  filledQuantity : ℕ
  remainingQuantity : ℕ
  message : String
  deriving DecidableEq, Repr

structure MarketOrderRequest where
  side : Side
  quantity : ℕ
  deriving DecidableEq, Repr

inductive MarketOrderStatus where
  | filled | partialFill | rejected
  deriving DecidableEq, Repr

structure FillInfo where
  price : ℕ
  quantity : ℕ
  deriving DecidableEq, Repr

structure MarketOrderResponse where
  orderId : String
  status : MarketOrderStatus
  filledQuantity : ℕ
  remainingQuantity : ℕ
  fills : List FillInfo
  deriving DecidableEq, Repr

structure CancelOrderResponse where
  success : Bool
  message : String
  deriving DecidableEq, Repr

structure ModifyOrderRequest where
  price : Option ℕ
  quantity : Option ℕ
  deriving DecidableEq, Repr

inductive ModifyOrderStatus where
  | modified | rejected
  deriving DecidableEq, Repr

structure ModifyOrderResponse where
  orderId : String
  status : ModifyOrderStatus
  newPrice : Option ℕ
  newQuantity : Option ℕ
  priorityChanged : Bool
  message : String
  deriving DecidableEq, Repr

structure BulkOrderItem where
  underlying : String
  expiration : String
  strike : ℕ
  style : OptionStyle
  side : Side
  price : ℕ
  quantity : ℕ
  deriving DecidableEq, Repr

structure BulkOrderRequest where
  orders : List BulkOrderItem
  atomic : Bool
  deriving DecidableEq, Repr

inductive BulkOrderStatus where
  | accepted | rejected
  deriving DecidableEq, Repr

structure BulkOrderResultItem where
  index : ℕ
  orderId : Option String
  status : BulkOrderStatus
  error : Option String
  deriving DecidableEq, Repr

structure BulkOrderResponse where
  successCount : ℕ
  failureCount : ℕ
  results : List BulkOrderResultItem
  rolledBack : Bool
  rollbackWarnings : List String
  deriving DecidableEq, Repr

structure BulkCancelResultItem where
  orderId : String
  canceled : Bool
  error : Option String
  deriving DecidableEq, Repr

structure BulkCancelResponse where
  successCount : ℕ
  failureCount : ℕ
  results : List BulkCancelResultItem
  deriving DecidableEq, Repr

structure CancelAllQuery where
  underlying : Option String
  expiration : Option String
  side : Option String
  style : Option String
  deriving DecidableEq, Repr

structure CancelAllResponse where
  canceledCount : ℕ
  failedCount : ℕ
  deriving DecidableEq, Repr

structure CreateSnapshotResponse where
  success : Bool
  snapshotId : String
  orderbooksSaved : ℕ
  ordersSaved : ℕ
  orderbooksFailed : ℕ
  timestampMs : ℕ
  deriving DecidableEq, Repr

structure RestoreSnapshotResponse where
  success : Bool
  snapshotId : String
  orderbooksRestored : ℕ
  ordersRestored : ℕ
  orderbooksFailed : ℕ
  timestampMs : ℕ
  deriving DecidableEq, Repr

end Requests
end OptionChainBackend
