import OptionChainBackend.Foundation.Table
import OptionChainBackend.MarketMaker.Quoter
import OptionChainBackend.Upstream.Exchange

/-!
The market maker engine: `market_maker/engine.rs`. Each lock-delimited section and each book
call is a function of its own, so that the sequential operations below and the interleaved
ones of `Interleaving` are made of the same steps.
-/
namespace OptionChainBackend
namespace MarketMaker
open Foundation Upstream

structure MarketMakerConfig (F : Type) where
  enabled : Bool
  spreadMultiplier : F
  sizeScalar : F
  directionalSkew : F
  symbolEnabled : Table String Bool

/-- `MarketMakerConfig::default`. -/
def MarketMakerConfig.standard {F : Type} [F64 F] : MarketMakerConfig F where
  enabled := true
  spreadMultiplier := F64.ofRat 1
  sizeScalar := F64.ofRat 1
  directionalSkew := F64.ofRat 0
  symbolEnabled := ∅

/-- A tracked quote; `quantity` is the remaining resting quantity. -/
structure ActiveOrderInfo where
  symbol : String
  expiration : ExpirationDate
  instrument : String
  strike : ℕ
  style : OptionStyle
  isBuy : Bool
  theoCents : ℕ
  quantity : ℕ
  deriving DecidableEq, Repr

/-- The option book the order is tracked on. -/
def ActiveOrderInfo.addr (o : ActiveOrderInfo) : OptionAddr :=
  ⟨o.symbol, o.expiration, o.strike, o.style⟩

inductive ExpKey where
  | days (n : ℕ)
  | dateTime (instant : DateTime)
  deriving DecidableEq, Repr

def ExpKey.of : ExpirationDate → ExpKey
  | .days n => .days n
  | .dateTime t => .dateTime t

structure InstrumentKey where
  symbol : String
  expiration : ExpKey
  strike : ℕ
  style : OptionStyle
  deriving DecidableEq, Repr

def InstrumentKey.new (a : OptionAddr) : InstrumentKey :=
  ⟨a.underlying, ExpKey.of a.expiration, a.strike, a.style⟩

def InstrumentKey.fromOrder (o : ActiveOrderInfo) : InstrumentKey :=
  ⟨o.symbol, ExpKey.of o.expiration, o.strike, o.style⟩

/-- The bid leg has slot 0, the ask leg slot 1. -/
def legSlot (isBuy : Bool) : Fin 2 := if isBuy then 0 else 1

abbrev Slots := Fin 2 → Option OrderId

def Slots.none : Slots := fun _ => Option.none

def Slots.pair (bid ask : Option OrderId) : Slots := fun s => if s = 0 then bid else ask

def Slots.isEmpty (s : Slots) : Bool := (s 0).isNone && (s 1).isNone

/-- The recorded ids, bid first. -/
def Slots.ids (s : Slots) : List OrderId := (s 0).toList ++ (s 1).toList

inductive MarketMakerEvent (F : Type) where
  | quoteUpdated (symbol expiration : String) (strike : ℕ) (style : String)
      (bidPrice askPrice bidSize askSize : ℕ)
  | orderFilled (orderId symbol instrument side : String) (quantity price : ℕ) (edge : ℤ)
  | configChanged (enabled : Bool) (spreadMultiplier sizeScalar directionalSkew : F)
  | priceUpdated (symbol : String) (priceCents : ℕ)

/-- `events` is what was broadcast, oldest first. -/
structure MarketMakerEngine (F : Type) where
  quoter : Quoter F
  config : MarketMakerConfig F
  prices : Table String ℕ
  activeOrders : Table OrderId ActiveOrderInfo
  instrumentOrders : Table InstrumentKey Slots
  events : List (MarketMakerEvent F)

structure RequoteContext (F : Type) where
  symbol : String
  expiration : ExpirationDate
  expDisplay : String
  expCanonical : String
  spotCents : ℕ
  config : MarketMakerConfig F

section Bounds
variable {F : Type} [F64 F]

def spreadMultiplierMin : F := F64.ofRat (1 / 10)
def spreadMultiplierMax : F := F64.ofRat 10
def sizeScalarMin : F := F64.ofRat 0
def sizeScalarMax : F := F64.ofRat 1
def directionalSkewMin : F := F64.ofRat (-1)
def directionalSkewMax : F := F64.ofRat 1

def MarketMakerConfig.withSpreadMultiplier (c : MarketMakerConfig F) (multiplier : F) :
    MarketMakerConfig F :=
  { c with spreadMultiplier := F64.clamp multiplier spreadMultiplierMin spreadMultiplierMax }

def MarketMakerConfig.withSizeScalar (c : MarketMakerConfig F) (scalar : F) :
    MarketMakerConfig F :=
  { c with sizeScalar := F64.clamp scalar sizeScalarMin sizeScalarMax }

def MarketMakerConfig.withDirectionalSkew (c : MarketMakerConfig F) (skew : F) :
    MarketMakerConfig F :=
  { c with directionalSkew := F64.clamp skew directionalSkewMin directionalSkewMax }

end Bounds

namespace MarketMakerEngine
variable {F : Type}

/-- `MarketMakerEngine::new`. -/
def new [F64 F] (quoter : Quoter F) : MarketMakerEngine F where
  quoter := quoter
  config := .standard
  prices := ∅
  activeOrders := ∅
  instrumentOrders := ∅
  events := []

def send (e : MarketMakerEngine F) (event : MarketMakerEvent F) : MarketMakerEngine F :=
  { e with events := e.events ++ [event] }

def clearInstrumentSlot (e : MarketMakerEngine F) (key : InstrumentKey) (isBuy : Bool) :
    MarketMakerEngine F :=
  match e.instrumentOrders.lookup key with
  | some slots =>
    let slots : Slots := Function.update slots (legSlot isBuy) none
    { e with instrumentOrders :=
        if slots.isEmpty then e.instrumentOrders.erase key
        else e.instrumentOrders.insert key slots }
  | none => e

def getPrice (e : MarketMakerEngine F) (symbol : String) : Option ℕ := e.prices.lookup symbol

def isEnabled (e : MarketMakerEngine F) : Bool := e.config.enabled

def isSymbolEnabled (e : MarketMakerEngine F) (symbol : String) : Bool :=
  (e.config.symbolEnabled.lookup symbol).getD true

def broadcastConfigChange (e : MarketMakerEngine F) : MarketMakerEngine F :=
  e.send (.configChanged e.config.enabled e.config.spreadMultiplier e.config.sizeScalar
    e.config.directionalSkew)

def insertPrice (e : MarketMakerEngine F) (symbol : String) (priceCents : ℕ) :
    MarketMakerEngine F :=
  { e with prices := e.prices.insert symbol priceCents }

def writeEnabled (e : MarketMakerEngine F) (enabled : Bool) : MarketMakerEngine F :=
  { e with config := { e.config with enabled := enabled } }

def untrack (e : MarketMakerEngine F) (id : OrderId) : MarketMakerEngine F :=
  { e with activeOrders := e.activeOrders.erase id }

def track (e : MarketMakerEngine F) (id : OrderId) (info : ActiveOrderInfo) :
    MarketMakerEngine F :=
  { e with activeOrders := e.activeOrders.insert id info }

/-- The ids recorded for an instrument; empty when there is no entry. -/
def slots (e : MarketMakerEngine F) (key : InstrumentKey) : Slots :=
  (e.instrumentOrders.lookup key).getD Slots.none

def removeEntry (e : MarketMakerEngine F) (key : InstrumentKey) : MarketMakerEngine F :=
  { e with instrumentOrders := e.instrumentOrders.erase key }

/-- Record both fresh legs, when at least one was placed. -/
def recordLegs (e : MarketMakerEngine F) (key : InstrumentKey) (placed : Slots) :
    MarketMakerEngine F :=
  if placed.isEmpty then e
  else { e with instrumentOrders := e.instrumentOrders.insert key placed }

def clearIndex (e : MarketMakerEngine F) : MarketMakerEngine F := { e with instrumentOrders := ∅ }

/-- The tracking update of a fill: a fully filled order also leaves its slot. -/
def takeFill (e : MarketMakerEngine F) (id : OrderId) (order : ActiveOrderInfo) (quantity : ℕ) :
    MarketMakerEngine F :=
  if order.quantity ≤ quantity then
    (e.untrack id).clearInstrumentSlot (.fromOrder order) order.isBuy
  else e.track id { order with quantity := order.quantity - quantity }

/-- `on_order_filled`. The quantity reported never exceeds what is tracked. -/
def onOrderFilled (e : MarketMakerEngine F) (showId : OrderId → String) (id : OrderId)
    (fillPriceCents quantity : ℕ) : MarketMakerEngine F :=
  if quantity = 0 then e
  else match e.activeOrders.lookup id with
    | none => e
    | some order =>
      let e' := e.takeFill id order quantity
      if fillPriceCents < 2 ^ 64 then
        e'.send (.orderFilled (showId id) order.symbol order.instrument
          (if order.isBuy then "buy" else "sell") (min quantity order.quantity) fillPriceCents
          (calculateEdge fillPriceCents order.theoCents order.isBuy))
      else e'

end MarketMakerEngine

/-- The engine with the books it quotes on. `quoted` is history: the ids of the orders the
engine has placed. -/
structure Desk (B F : Type) where
  market : Exchange B
  engine : MarketMakerEngine F
  quoted : List OrderId

namespace Desk
variable {B F : Type} [Upstream B] [F64 F]

def new (quoter : Quoter F) : Desk B F := ⟨Exchange.init, .new quoter, []⟩

/-- A book call whose result the engine ignores. -/
def cancelOnBook (d : Desk B F) (a : OptionAddr) (id : OrderId) : Desk B F :=
  { d with market := (d.market.cancelOrder a id).2 }

def cancelOrder (d : Desk B F) (id : OrderId) : Desk B F :=
  match d.engine.activeOrders.lookup id with
  | none => d
  | some order =>
    let d' := { d with
      engine := (d.engine.untrack id).clearInstrumentSlot (.fromOrder order) order.isBuy }
    if d.market.hasBook order.addr then d'.cancelOnBook order.addr id else d'

def cancelAllOrders (d : Desk B F) : Desk B F :=
  let d' := d.engine.activeOrders.keys.foldl cancelOrder d
  { d' with engine := d'.engine.clearIndex }

def cancelSymbolOrders (d : Desk B F) (symbol : String) : Desk B F :=
  ((d.engine.activeOrders.select fun _ o => o.symbol = symbol).map Prod.fst).foldl cancelOrder d

def onOrderFilled (d : Desk B F) (id : OrderId) (fillPriceCents quantity : ℕ) : Desk B F :=
  { d with engine := d.engine.onOrderFilled (showOrderId B) id fillPriceCents quantity }

def styleChar : OptionStyle → String
  | .call => "C"
  | .put => "P"

def styleName : OptionStyle → String
  | .call => "call"
  | .put => "put"

def instrument (ctx : RequoteContext F) (strike : ℕ) (style : OptionStyle) : String :=
  ctx.symbol ++ "-" ++ ctx.expCanonical ++ "-" ++ toString strike ++ "-" ++ styleChar style

def quoteInput (ctx : RequoteContext F) (strike : ℕ) (style : OptionStyle) : QuoteInput F where
  spotCents := ctx.spotCents
  strikeCents := strike
  expiration := ctx.expiration
  style := style
  spreadMultiplier := ctx.config.spreadMultiplier
  sizeScalar := ctx.config.sizeScalar
  directionalSkew := ctx.config.directionalSkew
  iv := none

/-- Cancel the previous quotes of an instrument and forget them. -/
def dropStale (d : Desk B F) (a : OptionAddr) (stale : Slots) : Desk B F :=
  if stale.isEmpty then d
  else
    let d' := stale.ids.foldl (fun d id => d.cancelOnBook a id) d
    let engine := stale.ids.foldl MarketMakerEngine.untrack d'.engine
    { d' with engine := engine.removeEntry (.new a) }

/-- One `add_limit_order`; the id when it was accepted. -/
def placeOnBook (d : Desk B F) (a : OptionAddr) (isBuy : Bool) (price quantity : ℕ) :
    Option OrderId × Desk B F :=
  let (id, market) := d.market.newOrderId
  match market.addLimitOrder a id (if isBuy then .buy else .sell) price quantity with
  | (.ok (), market) => (some id, { d with market := market, quoted := id :: d.quoted })
  | (.error _, market) => (none, { d with market := market })

omit [F64 F] in
theorem placeOnBook_engine (d : Desk B F) (a : OptionAddr) (isBuy : Bool) (price q : ℕ) :
    (d.placeOnBook a isBuy price q).2.engine = d.engine := by
  unfold placeOnBook
  dsimp only
  split <;> rfl

/-- Place one leg and track it. -/
def placeLeg (d : Desk B F) (a : OptionAddr) (price : ℕ) (info : ActiveOrderInfo) :
    Option OrderId × Desk B F :=
  match d.placeOnBook a info.isBuy price info.quantity with
  | (some id, d) => (some id, { d with engine := d.engine.track id info })
  | (none, d) => (none, d)

def legInfo (ctx : RequoteContext F) (strike : ℕ) (style : OptionStyle) (q : QuoteParams)
    (isBuy : Bool) : ActiveOrderInfo where
  symbol := ctx.symbol
  expiration := ctx.expiration
  instrument := instrument ctx strike style
  strike := strike
  style := style
  isBuy := isBuy
  theoCents := q.theoPrice
  quantity := if isBuy then q.bidSize else q.askSize

/-- The part of `update_quote` behind the quoter and the book lookup. -/
def replaceQuotes (d : Desk B F) (ctx : RequoteContext F) (strike : ℕ) (style : OptionStyle)
    (q : QuoteParams) : Desk B F :=
  let a : OptionAddr := ⟨ctx.symbol, ctx.expiration, strike, style⟩
  let d := d.dropStale a (d.engine.slots (.new a))
  let (bid, d) := d.placeLeg a q.bidPrice (legInfo ctx strike style q true)
  let (ask, d) := d.placeLeg a q.askPrice (legInfo ctx strike style q false)
  let engine := d.engine.recordLegs (.new a) (Slots.pair bid ask)
  { d with
    engine := engine.send (.quoteUpdated ctx.symbol ctx.expDisplay strike (styleName style)
      q.bidPrice q.askPrice q.bidSize q.askSize) }

def updateQuote (d : Desk B F) (ctx : RequoteContext F) (strike : ℕ) (style : OptionStyle) :
    Desk B F :=
  match d.engine.quoter.generateQuote d.market.now (quoteInput ctx strike style) with
  | none => d
  | some q =>
    if d.market.hasBook ⟨ctx.symbol, ctx.expiration, strike, style⟩ then
      d.replaceQuotes ctx strike style q
    else d

def requoteContext (d : Desk B F) (symbol : String) (spotCents : ℕ) (e : ExpirationDate) :
    RequoteContext F where
  symbol := symbol
  expiration := e
  expDisplay := displayExpiration B d.market.now e
  expCanonical := match getDate B d.market.now e with
    | some t => Calendar.formatYmd t
    | none => displayExpiration B d.market.now e
  spotCents := spotCents
  config := d.engine.config

/-- The instruments of a symbol in the order the requote loops visit them. -/
def instruments (d : Desk B F) (symbol : String) : List (ExpirationDate × ℕ × OptionStyle) :=
  (d.market.expirations symbol).flatMap fun e =>
    (d.market.strikes symbol e).flatMap fun strike => [(e, strike, .call), (e, strike, .put)]

def requoteSymbol (d : Desk B F) (symbol : String) : Desk B F :=
  match d.engine.getPrice symbol with
  | none => d
  | some spotCents =>
    if d.market.get symbol then
      (d.instruments symbol).foldl
        (fun s i => s.updateQuote (d.requoteContext symbol spotCents i.1) i.2.1 i.2.2) d
    else d

def requoteAll (d : Desk B F) : Desk B F :=
  d.market.underlyings.foldl
    (fun d symbol => if d.engine.isSymbolEnabled symbol then d.requoteSymbol symbol else d) d

def updatePrice (d : Desk B F) (symbol : String) (priceCents : ℕ) : Desk B F :=
  let d := { d with
    engine := (d.engine.insertPrice symbol priceCents).send (.priceUpdated symbol priceCents) }
  if d.engine.isEnabled && d.engine.isSymbolEnabled symbol then d.requoteSymbol symbol else d

def setEnabled (d : Desk B F) (enabled : Bool) : Desk B F :=
  let d := { d with engine := d.engine.writeEnabled enabled }
  let d := if enabled then d else d.cancelAllOrders
  { d with engine := d.engine.broadcastConfigChange }

def writeConfig (d : Desk B F) (config : MarketMakerConfig F) : Desk B F :=
  { d with engine := { d.engine with config := config } }

def setSymbolEnabled (d : Desk B F) (symbol : String) (enabled : Bool) : Desk B F :=
  let d := d.writeConfig { d.engine.config with
    symbolEnabled := d.engine.config.symbolEnabled.insert symbol enabled }
  if enabled then d else d.cancelSymbolOrders symbol

/-- The three parameter setters: a non-finite value is ignored; otherwise the new configuration
is stored and broadcast, and every instrument is requoted. -/
def setParameter (d : Desk B F) (value : F) (config : MarketMakerConfig F) : Desk B F :=
  if F64.isFinite value then
    let d := d.writeConfig config
    requoteAll { d with engine := d.engine.broadcastConfigChange }
  else d

def setSpreadMultiplier (d : Desk B F) (multiplier : F) : Desk B F :=
  d.setParameter multiplier (d.engine.config.withSpreadMultiplier multiplier)

def setSizeScalar (d : Desk B F) (scalar : F) : Desk B F :=
  d.setParameter scalar (d.engine.config.withSizeScalar scalar)

def setDirectionalSkew (d : Desk B F) (skew : F) : Desk B F :=
  d.setParameter skew (d.engine.config.withDirectionalSkew skew)

end Desk
end MarketMaker
end OptionChainBackend
