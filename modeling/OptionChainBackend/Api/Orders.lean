import Mathlib.Data.List.Infix
import OptionChainBackend.Api.State

/-!
The single-order handlers: `add_order`, `submit_market_order`, `cancel_order`, `modify_order`.
Each checks its request before it touches a book; what it does then is a function of its own.
-/
namespace OptionChainBackend
open Foundation Upstream MarketMaker

/-- The tracked record of an order that matched as `r` when it was submitted. -/
def OrderInfo.ofMatch (B : Type) [Upstream B] (id : OrderId) (underlying expiration : String)
    (strike : ℕ) (style : OptionStyle) (side : Side) (price quantity : ℕ)
    (tif : OrderTimeInForce) (now : ℕ) (r : MatchResult) : OrderInfo where
  orderId := showOrderId B id
  symbol := symbolOf underlying expiration strike style
  underlying := underlying
  expiration := expiration
  strike := strike
  style := Desk.styleName style
  side := side
  price := price
  originalQuantity := quantity
  remainingQuantity := r.remainingQuantity
  filledQuantity := r.executedQuantity
  status := r.orderStatus
  timeInForce := tif
  createdAtMs := now
  updatedAtMs := now
  fills := r.orderFills

/-- A match that found nothing. -/
def MatchResult.untouched (quantity : ℕ) : MatchResult := ⟨[], quantity, false⟩

/-- What `cancel_order` makes of an order it no longer finds on the book. -/
def OrderInfo.markFilled (now : ℕ) (o : OrderInfo) : OrderInfo :=
  { o with
    filledQuantity := o.originalQuantity
    remainingQuantity := 0
    status := .filled
    updatedAtMs := now }

namespace AppState
variable {B F : Type} [Upstream B]

section AddOrder

def requestedTif (B : Type) [Upstream B] (body : AddOrderRequest) (nowMs : ℕ) :
    Except ApiError TimeInForce :=
  match body.timeInForce.getD .gtc with
  | .gtc => .ok .gtc
  | .ioc => .ok .ioc
  | .fok => .ok .fok
  | .gtd => (parseGtdExpireAt B body.expireAt nowMs).map .gtd

/-- The checks of `add_order`: the book addressed and the time-in-force. -/
def checkAddOrder (s : AppState B F) (p : OptionPath) (body : AddOrderRequest) :
    Except ApiError (OptionAddr × TimeInForce) := do
  let expiration ← parseExpiration p.expStr
  let style ← parseOptionStyle p.style
  let tif ← requestedTif B body s.market.now
  return (⟨p.underlying, expiration, p.strike, style⟩, tif)

def insufficientLiquidity (error : String) : Bool :=
  decide ("InsufficientLiquidity".toList <:+: error.toList) ||
    decide ("insufficient".toList <:+: error.toList)

def limitStatus (r : MatchResult) : LimitOrderStatus :=
  if r.isComplete then .filled else if 0 < r.executedQuantity then .partialFill else .accepted

/-- The tracked record of `add_order`; its expiration is the formatted one. -/
def addedInfo (B : Type) [Upstream B] (now : ℕ) (a : OptionAddr) (body : AddOrderRequest)
    (id : OrderId) (r : MatchResult) : OrderInfo :=
  .ofMatch B id a.underlying (formatExpiration B now a.expiration) a.strike a.style body.side
    body.price body.quantity (body.timeInForce.getD .gtc) now r

/-- The book accepted the order: it is tracked, and its fills are recorded under the expiration
segment of the request. -/
def acceptLimit (s : AppState B F) (expStr : String) (a : OptionAddr) (body : AddOrderRequest)
    (id : OrderId) (r : MatchResult) (x : Exchange B) : AppState B F :=
  ((s.withMarket x).track (addedInfo B x.now a body id r)).reportLimit
    (symbolOf a.underlying expStr a.strike a.style) a.underlying a body.side body.price r

def submitLimit (s : AppState B F) (expStr : String) (a : OptionAddr) (tif : TimeInForce)
    (body : AddOrderRequest) : Except ApiError AddOrderResponse × AppState B F :=
  let (id, x) := (s.market.openBook a).newOrderId
  match x.addLimitOrderWithTif a id body.side body.price body.quantity tif with
  | (.error e, x) =>
    (if insufficientLiquidity e then
        .ok ⟨showOrderId B id, .rejected, 0, body.quantity, "Order rejected: " ++ e⟩
      else .error (.orderBook e), s.withMarket x)
  | (.ok r, x) =>
    (.ok ⟨showOrderId B id, limitStatus r, r.executedQuantity, r.remainingQuantity,
      "Order added successfully with TIF=" ++ displayTif B tif⟩, s.acceptLimit expStr a body id r x)

def addOrder (s : AppState B F) (p : OptionPath) (body : AddOrderRequest) :
    Except ApiError AddOrderResponse × AppState B F :=
  match s.checkAddOrder p body with
  | .error e => (.error e, s)
  | .ok (a, tif) => s.submitLimit p.expStr a tif body

end AddOrder

section MarketOrder

def checkMarketOrder (p : OptionPath) (body : MarketOrderRequest) : Except ApiError OptionAddr := do
  if body.quantity = 0 then throw (.invalidRequest "quantity must be greater than zero")
  let expiration ← parseExpiration p.expStr
  let style ← parseOptionStyle p.style
  return ⟨p.underlying, expiration, p.strike, style⟩

def marketStatus (r : MatchResult) : MarketOrderStatus :=
  if r.isComplete then .filled else if 0 < r.executedQuantity then .partialFill else .rejected

/-- A market order is never tracked; its fills are recorded. -/
def acceptMarket (s : AppState B F) (expStr : String) (a : OptionAddr) (side : Side)
    (r : MatchResult) (x : Exchange B) : AppState B F :=
  ((s.withMarket x).recordMatch (symbolOf a.underlying expStr a.strike a.style) a.underlying side
    r).publishMatch a side r

def submitMarket (s : AppState B F) (expStr : String) (a : OptionAddr)
    (body : MarketOrderRequest) : Except ApiError MarketOrderResponse × AppState B F :=
  let (id, x) := (s.market.openBook a).newOrderId
  match x.submitMarketOrder a id body.quantity body.side with
  | (.error e, x) => (.error (.orderBook e), s.withMarket x)
  | (.ok r, x) =>
    (.ok ⟨showOrderId B id, marketStatus r, r.executedQuantity, r.remainingQuantity,
      r.trades.map fun t => ⟨t.price, t.quantity⟩⟩, s.acceptMarket expStr a body.side r x)

def submitMarketOrder (s : AppState B F) (p : OptionPath) (body : MarketOrderRequest) :
    Except ApiError MarketOrderResponse × AppState B F :=
  match checkMarketOrder p body with
  | .error e => (.error e, s)
  | .ok a => s.submitMarket p.expStr a body

end MarketOrder

/-- The book and the order a DELETE or PATCH request addresses. -/
def target (x : Exchange B) (p : OptionPath) (orderIdStr : String) :
    Except ApiError (OptionAddr × OrderId) := do
  let style ← parseOptionStyle p.style
  match x.locate p.underlying p.expStr p.strike style, parseOrderId B orderIdStr with
  | .error .underlying, _ => throw (.underlyingNotFound p.underlying)
  | .error .expiration, _ => throw (.expirationNotFound p.expStr)
  | .error .strike, _ => throw (.strikeNotFound p.strike)
  | .ok _, none => throw (.invalidRequest ("Invalid order ID: " ++ orderIdStr))
  | .ok a, some id => return (a, id)

section CancelOrder

/-- Publish the level a cancelled order rested on. -/
def publishCancelled (s : AppState B F) (a : OptionAddr) (resting : Option RestingOrder) :
    AppState B F :=
  match resting with
  | some o => s.publishLevelDelta a o.side o.price
  | none => s

/-- The book call of `cancel_order` and the tracking behind it. An order that does not rest is
taken to have been filled. -/
def cancelAt (s : AppState B F) (a : OptionAddr) (id : OrderId) (orderIdStr : String) :
    Except ApiError CancelOrderResponse × AppState B F :=
  match s.market.cancelOrder a id with
  | (.error e, x) => (.error (.orderBook e), s.withMarket x)
  | (.ok true, x) =>
    (.ok ⟨true, "Order canceled successfully"⟩,
      ((s.withMarket x).untrack orderIdStr).publishCancelled a (s.market.getOrder a id))
  | (.ok false, x) =>
    (.ok ⟨false, "Order not found"⟩,
      { s.withMarket x with orders := s.orders.modify orderIdStr (.markFilled s.market.now) })

def cancelOrder (s : AppState B F) (p : OptionPath) (orderIdStr : String) :
    Except ApiError CancelOrderResponse × AppState B F :=
  match target s.market p orderIdStr with
  | .error e => (.error e, s)
  | .ok (a, id) => s.cancelAt a id orderIdStr

end CancelOrder

section ModifyOrder

/-- The order, price and quantity a valid `modify_order` replaces and asks for. -/
def checkModifyOrder (s : AppState B F) (p : OptionPath) (orderIdStr : String)
    (body : ModifyOrderRequest) :
    Except ApiError (OptionAddr × OrderId × RestingOrder × ℕ × ℕ) := do
  if body.price.isNone && body.quantity.isNone then
    throw (.invalidRequest "At least one of 'price' or 'quantity' must be provided")
  let (a, id) ← target s.market p orderIdStr
  match s.market.getOrder a id with
  | none => throw (.notFound ("Order not found: " ++ orderIdStr))
  | some o =>
    let newPrice := body.price.getD o.price
    let newQuantity := body.quantity.getD o.visibleQuantity
    if newPrice = 0 then throw (.invalidRequest "new price must be greater than zero")
    if newQuantity = 0 then throw (.invalidRequest "new quantity must be greater than zero")
    return (a, id, o, newPrice, newQuantity)

/-- The replacement is tracked as resting whole, whatever it matched on arrival. -/
def replacementInfo (B : Type) [Upstream B] (now : ℕ) (expStr : String) (a : OptionAddr)
    (side : Side) (price quantity : ℕ) (id : OrderId) : OrderInfo :=
  .ofMatch B id a.underlying expStr a.strike a.style side price quantity .gtc now
    (.untouched quantity)

/-- Place the replacement; `add_limit_order` does not return its fills. -/
def placeReplacement (s : AppState B F) (expStr orderIdStr : String) (a : OptionAddr) (side : Side)
    (price quantity : ℕ) : ModifyOrderResponse × AppState B F :=
  let (id, x) := s.market.newOrderId
  match x.addLimitOrder a id side price quantity with
  | (.ok (), x) =>
    (⟨showOrderId B id, .modified, some price, some quantity, true,
        "Order modified successfully (cancel-and-replace)"⟩,
      ({ (s.withMarket x).track (replacementInfo B x.now expStr a side price quantity id) with
          replacements := id :: s.replacements }).publishLevelDelta a side price)
  | (.error e, x) =>
    (⟨orderIdStr, .rejected, none, none, false,
      "Order canceled but failed to place replacement: " ++ e⟩, s.withMarket x)

/-- Cancel the order, then place the replacement. -/
def replaceOrder (s : AppState B F) (expStr orderIdStr : String) (a : OptionAddr) (id : OrderId)
    (o : RestingOrder) (price quantity : ℕ) :
    Except ApiError ModifyOrderResponse × AppState B F :=
  match s.market.cancelOrder a id with
  | (.error e, x) => (.error (.orderBook e), s.withMarket x)
  | (.ok false, x) =>
    (.ok ⟨orderIdStr, .rejected, none, none, false,
      "Failed to cancel existing order for modification"⟩, s.withMarket x)
  | (.ok true, x) =>
    let s := ((s.withMarket x).untrack orderIdStr).publishLevelDelta a o.side o.price
    let out := s.placeReplacement expStr orderIdStr a o.side price quantity
    (.ok out.1, out.2)

def modifyOrder (s : AppState B F) (p : OptionPath) (orderIdStr : String)
    (body : ModifyOrderRequest) : Except ApiError ModifyOrderResponse × AppState B F :=
  match s.checkModifyOrder p orderIdStr body with
  | .error e => (.error e, s)
  | .ok (a, id, o, price, quantity) => s.replaceOrder p.expStr orderIdStr a id o price quantity

end ModifyOrder
end AppState
end OptionChainBackend
