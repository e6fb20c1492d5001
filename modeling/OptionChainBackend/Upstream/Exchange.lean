import Mathlib.Logic.Function.Basic
import Mathlib.Algebra.Order.BigOperators.Group.List
import Mathlib.Algebra.Order.Group.Nat
import OptionChainBackend.Upstream.Book

/-!
All option books of the process: the `UnderlyingOrderBookManager` with its underlyings,
expirations and strikes, the clock, the id supplies, and the record of what happened
(the tape of executed trades and the book each order was placed on).
-/
namespace OptionChainBackend
open Upstream

/-- One executed trade, with the book it executed on and the aggressor's side. -/
structure Execution where
  addr : OptionAddr
  takerSide : Side
  trade : Trade
  deriving DecidableEq, Repr

/-- Which option books exist, and the symbol each was created with. -/
structure Catalog where
  underlyings : List String
  expirations : String → List ExpirationDate
  strikes : String → ExpirationDate → List ℕ
  symbols : OptionAddr → String

namespace Catalog

def get (c : Catalog) (underlying : String) : Bool := underlying ∈ c.underlyings

def getExpiration (c : Catalog) (underlying : String) (e : ExpirationDate) : Bool :=
  e ∈ c.expirations underlying

def getStrike (c : Catalog) (underlying : String) (e : ExpirationDate) (strike : ℕ) : Bool :=
  strike ∈ c.strikes underlying e

/-- The three lookups on the way to an option book all succeed. -/
def hasBook (c : Catalog) (a : OptionAddr) : Bool :=
  c.get a.underlying && c.getExpiration a.underlying a.expiration &&
    c.getStrike a.underlying a.expiration a.strike

end Catalog

/-- `tape` and `home` are history: no modelled function reads them. -/
structure Exchange (B : Type) extends Catalog where
  books : OptionAddr → B
  now : ℕ
  nextOrderId : OrderId
  nextTradeId : TradeId
  tape : List Execution
  home : OrderId → Option OptionAddr

namespace Exchange
variable {B : Type} [Upstream B]

def init : Exchange B where
  underlyings := []
  expirations _ := []
  strikes _ _ := []
  books _ := Upstream.empty
  symbols _ := ""
  now := 0
  nextOrderId := 0
  nextTradeId := 0
  tape := []
  home _ := none

def getOrder (x : Exchange B) (a : OptionAddr) (i : OrderId) : Option RestingOrder :=
  Upstream.getOrder (x.books a) i

/-- `get_orders_at_price`. -/
def getOrdersAtPrice (x : Exchange B) (a : OptionAddr) (price : ℕ) (side : Side) :
    List RestingOrder :=
  (Upstream.orders (x.books a)).filter fun o => o.price = price ∧ o.side = side

def getOrCreate (x : Exchange B) (underlying : String) : Exchange B :=
  if x.get underlying then x else { x with underlyings := x.underlyings ++ [underlying] }

def getOrCreateExpiration (x : Exchange B) (underlying : String) (e : ExpirationDate) :
    Exchange B :=
  if x.getExpiration underlying e then x else
    { x with expirations :=
        Function.update x.expirations underlying (enlist B (x.expirations underlying) e) }

def getOrCreateStrike (x : Exchange B) (underlying : String) (e : ExpirationDate) (strike : ℕ) :
    Exchange B :=
  if x.getStrike underlying e strike then x else
    { x with
      strikes := Function.update x.strikes underlying
        (Function.update (x.strikes underlying) e (x.strikes underlying e ++ [strike]))
      symbols := fun a =>
        if a.underlying = underlying ∧ a.expiration = e ∧ a.strike = strike then
          bookSymbol B x.now a
        else x.symbols a }

/-- `get_or_create`, `get_or_create_expiration`, `get_or_create_strike` in a row. -/
def openBook (x : Exchange B) (a : OptionAddr) : Exchange B :=
  ((x.getOrCreate a.underlying).getOrCreateExpiration a.underlying a.expiration).getOrCreateStrike
    a.underlying a.expiration a.strike

/-- `UnderlyingOrderBookManager::remove`: the underlying leaves with everything below it. -/
def remove (x : Exchange B) (underlying : String) : Exchange B :=
  { x with
    underlyings := x.underlyings.filter (· ≠ underlying)
    expirations := Function.update x.expirations underlying []
    strikes := Function.update x.strikes underlying fun _ => []
    books := fun a => if a.underlying = underlying then Upstream.empty else x.books a }

/-- `OrderId::new`. -/
def newOrderId (x : Exchange B) : OrderId × Exchange B :=
  (x.nextOrderId, { x with nextOrderId := x.nextOrderId + 1 })

def tradesOf : Except String MatchResult → List Trade
  | .ok r => r.trades
  | .error _ => []

/-- Book `a` answered a submission of order `id` with `out`. -/
def applyMatch (x : Exchange B) (a : OptionAddr) (side : Side) (id : OrderId)
    (out : Except String MatchResult × B) : Exchange B :=
  { x with
    books := Function.update x.books a out.2
    nextTradeId := x.nextTradeId + (tradesOf out.1).length
    tape := x.tape ++ (tradesOf out.1).map fun t => ⟨a, side, t⟩
    home := match out.1 with
      | .ok _ => Function.update x.home id (some a)
      | .error _ => x.home }

def addLimitOrderWithTif (x : Exchange B) (a : OptionAddr) (id : OrderId) (side : Side)
    (price quantity : ℕ) (tif : TimeInForce) : Except String MatchResult × Exchange B :=
  let out := Upstream.addLimitOrderWithTif (x.books a) x.now x.nextTradeId id side price quantity
    tif
  (out.1, x.applyMatch a side id out)

/-- `add_limit_order_full`: the time-in-force is GTC. -/
def addLimitOrderFull (x : Exchange B) (a : OptionAddr) (id : OrderId) (side : Side)
    (price quantity : ℕ) : Except String MatchResult × Exchange B :=
  x.addLimitOrderWithTif a id side price quantity .gtc

/-- `add_limit_order`: as `addLimitOrderFull`, but the fills are not returned. -/
def addLimitOrder (x : Exchange B) (a : OptionAddr) (id : OrderId) (side : Side)
    (price quantity : ℕ) : Except String Unit × Exchange B :=
  let out := x.addLimitOrderFull a id side price quantity
  (out.1.map fun _ => (), out.2)

def submitMarketOrder (x : Exchange B) (a : OptionAddr) (id : OrderId) (quantity : ℕ)
    (side : Side) : Except String MatchResult × Exchange B :=
  let out := Upstream.submitMarketOrder (x.books a) x.now x.nextTradeId id quantity side
  (out.1, x.applyMatch a side id out)

def cancelOrder (x : Exchange B) (a : OptionAddr) (id : OrderId) :
    Except String Bool × Exchange B :=
  let out := Upstream.cancelOrder (x.books a) id
  (out.1, { x with books := Function.update x.books a out.2 })

def restoreFromSnapshot (x : Exchange B) (a : OptionAddr) (s : OrderBookSnapshot) :
    Except String Unit × Exchange B :=
  let out := Upstream.restoreFromSnapshot (x.books a) s
  (out.1, { x with books := Function.update x.books a out.2 })

/-- The clock moves on by `ms` milliseconds. -/
def tick (x : Exchange B) (ms : ℕ) : Exchange B :=
  { x with now := x.now + ms, books := fun a => lapse (x.now + ms) (x.books a) }

/-- Quantity of order `i` executed so far, as taker or as maker. -/
def executed (x : Exchange B) (i : OrderId) : ℕ :=
  ((x.tape.filter fun e => e.trade.involves i).map fun e => e.trade.quantity).sum

/-- Quantity of order `i` executed so far as maker. -/
def executedAsMaker (x : Exchange B) (i : OrderId) : ℕ :=
  makerFilled (x.tape.map Execution.trade) i

/-- Quantity resting under `i` on the book the order was placed on. -/
def remaining (x : Exchange B) (i : OrderId) : ℕ :=
  match x.home i with
  | some a => ((x.getOrder a i).map RestingOrder.visibleQuantity).getD 0
  | none => 0

/-- Every order id in use has been issued. -/
structure Fresh (x : Exchange B) : Prop where
  resting : ∀ {a i o}, x.getOrder a i = some o → i < x.nextOrderId
  home : ∀ {i a}, x.home i = some a → i < x.nextOrderId
  taped : ∀ e ∈ x.tape, e.trade.takerOrderId < x.nextOrderId ∧
    e.trade.makerOrderId < x.nextOrderId

/-- Order `i` rests nowhere but on the book it was placed on. -/
def HomedAt (x : Exchange B) (i : OrderId) : Prop :=
  ∀ ⦃a o⦄, x.getOrder a i = some o → x.home i = some a

/-- Every resting order rests on the book it was placed on. -/
def Homed (x : Exchange B) : Prop := ∀ i, x.HomedAt i

end Exchange
end OptionChainBackend
