import Mathlib.Data.List.Range
import Mathlib.Algebra.Ring.Nat
import OptionChainBackend.Upstream.Calendar

/-!
The option order book and the other crate functions the backend calls, as parameters.
`Upstream` lists the calls, `LawfulUpstream` what the backend relies on: matching conserves
quantity, IOC and FOK never rest, a call that returns an error leaves the book as it was.
-/
namespace OptionChainBackend

inductive Side where
  | buy | sell
  deriving DecidableEq, Repr

def Side.opposite : Side → Side
  | .buy => .sell
  | .sell => .buy

@[simp] theorem Side.opposite_opposite (s : Side) : s.opposite.opposite = s := by cases s <;> rfl

/-- `gtd` carries milliseconds since the epoch. -/
inductive TimeInForce where
  | gtc | ioc | fok
  | gtd (expireMs : ℕ)
  deriving DecidableEq, Repr

def TimeInForce.rests : TimeInForce → Bool
  | .gtc | .gtd _ => true
  | .ioc | .fok => false

abbrev OrderId := ℕ
abbrev TradeId := ℕ

structure RestingOrder where
  id : OrderId
  side : Side
  price : ℕ
  visibleQuantity : ℕ
  timeInForce : TimeInForce
  deriving DecidableEq, Repr

/-- What is left of a resting order after `q` units of it executed. -/
def RestingOrder.reduce (o : RestingOrder) (q : ℕ) : Option RestingOrder :=
  if o.visibleQuantity ≤ q then none else some { o with visibleQuantity := o.visibleQuantity - q }

structure Trade where
  tradeId : TradeId
  takerOrderId : OrderId
  makerOrderId : OrderId
  price : ℕ
  quantity : ℕ
  timestamp : ℕ
  deriving DecidableEq, Repr

def Trade.involves (t : Trade) (i : OrderId) : Bool :=
  t.takerOrderId = i || t.makerOrderId = i

/-- Quantity of the trades in `ts` whose maker is `i`. -/
def makerFilled (ts : List Trade) (i : OrderId) : ℕ :=
  ((ts.filter fun t => t.makerOrderId = i).map Trade.quantity).sum

structure MatchResult where
  trades : List Trade
  remainingQuantity : ℕ
  isComplete : Bool
  deriving DecidableEq, Repr

def MatchResult.executedQuantity (r : MatchResult) : ℕ := (r.trades.map Trade.quantity).sum

/-- `OrderBookSnapshot`: the levels of each side, each with its orders. -/
structure OrderBookSnapshot where
  bids : List (List RestingOrder)
  asks : List (List RestingOrder)
  deriving DecidableEq, Repr

def OrderBookSnapshot.orders (s : OrderBookSnapshot) : List RestingOrder :=
  s.bids.flatten ++ s.asks.flatten

/-- A taker on `side` with this limit (`none` for a market order) trades at `makerPrice`. -/
def Crosses (side : Side) (limit : Option ℕ) (makerPrice : ℕ) : Prop :=
  match limit, side with
  | none, _ => True
  | some p, .buy => makerPrice ≤ p
  | some p, .sell => p ≤ makerPrice

instance (side : Side) (limit : Option ℕ) (makerPrice : ℕ) :
    Decidable (Crosses side limit makerPrice) := by
  unfold Crosses
  split <;> infer_instance

/-- The calls into the order book, pricing and date crates. `B` is the type of one book. -/
class Upstream (B : Type) where
  empty : B
  getOrder : B → OrderId → Option RestingOrder
  orders : B → List RestingOrder
  addLimitOrderWithTif (book : B) (now : ℕ) (firstTrade : TradeId) (id : OrderId) (side : Side)
    (price quantity : ℕ) (tif : TimeInForce) : Except String MatchResult × B
  submitMarketOrder (book : B) (now : ℕ) (firstTrade : TradeId) (id : OrderId) (quantity : ℕ)
    (side : Side) : Except String MatchResult × B
  cancelOrder : B → OrderId → Except String Bool × B
  /-- Time passes: good-till-date orders may leave. -/
  lapse : ℕ → B → B
  createSnapshot : B → OrderBookSnapshot
  restoreFromSnapshot : B → OrderBookSnapshot → Except String Unit × B
  serializeSnapshot : OrderBookSnapshot → Except String String
  parseSnapshot : String → Except String OrderBookSnapshot
  /-- Where a new expiration goes in the iteration order of its underlying. -/
  enlist : List ExpirationDate → ExpirationDate → List ExpirationDate
  /-- `ExpirationDate::get_date` at a clock reading in milliseconds. -/
  getDate : ℕ → ExpirationDate → Option DateTime
  /-- `ExpirationDate`'s `Display`. -/
  displayExpiration : ℕ → ExpirationDate → String
  /-- The canonical symbol a book is created with. -/
  bookSymbol : ℕ → OptionAddr → String
  /-- The texts of failed lookups. -/
  underlyingError : String → String
  strikeError : ℕ → String
  displayTif : TimeInForce → String
  showOrderId : OrderId → String
  parseOrderId : String → Option OrderId
  showTradeId : TradeId → String
  /-- `DateTime::parse_from_rfc3339`, as epoch milliseconds. -/
  parseRfc3339 : String → Except String ℤ

open Upstream

/-- What a match of order `id` against book `b` looks like. -/
structure Matched {B : Type} [Upstream B] (b : B) (firstTrade : TradeId) (id : OrderId)
    (side : Side) (limit : Option ℕ) (quantity : ℕ) (r : MatchResult) : Prop where
  conserves : r.executedQuantity + r.remainingQuantity = quantity
  complete : r.isComplete = decide (r.remainingQuantity = 0)
  tradeIds : r.trades.map Trade.tradeId = List.range' firstTrade r.trades.length
  takers : ∀ t ∈ r.trades, t.takerOrderId = id
  positive : ∀ t ∈ r.trades, 0 < t.quantity
  makers : ∀ t ∈ r.trades, ∃ o, getOrder b t.makerOrderId = some o ∧ o.side = side.opposite ∧
    t.price = o.price ∧ Crosses side limit o.price
  bounded : ∀ i o, getOrder b i = some o → makerFilled r.trades i ≤ o.visibleQuantity
  exhausts : 0 < r.remainingQuantity → ∀ i o, getOrder b i = some o → o.side = side.opposite →
    Crosses side limit o.price → makerFilled r.trades i = o.visibleQuantity

/-- What an accepted order with time-in-force `tif` leaves resting. -/
def rested (id : OrderId) (side : Side) (price : ℕ) (tif : TimeInForce) (r : MatchResult) :
    Option RestingOrder :=
  if tif.rests = true ∧ 0 < r.remainingQuantity then
    some ⟨id, side, price, r.remainingQuantity, tif⟩
  else none

class LawfulUpstream (B : Type) [Upstream B] : Prop where
  getOrder_empty : ∀ i, getOrder (empty : B) i = none
  getOrder_id : ∀ (b : B) i o, getOrder b i = some o → o.id = i
  getOrder_pos : ∀ (b : B) i o, getOrder b i = some o → 0 < o.visibleQuantity
  orders_nodup : ∀ b : B, (orders b).Nodup
  mem_orders : ∀ (b : B) o, o ∈ orders b ↔ getOrder b o.id = some o
  add_ok : ∀ (b : B) now k id side p q tif r b',
    addLimitOrderWithTif b now k id side p q tif = (.ok r, b') → getOrder b id = none →
    Matched b k id side (some p) q r ∧ (tif = .fok → r.remainingQuantity = 0) ∧
    ∀ j, getOrder b' j = if j = id then rested id side p tif r else
      (getOrder b j).bind (·.reduce (makerFilled r.trades j))
  add_error : ∀ (b : B) now k id side p q tif e b',
    addLimitOrderWithTif b now k id side p q tif = (.error e, b') →
    ∀ j, getOrder b' j = getOrder b j
  market_ok : ∀ (b : B) now k id q side r b',
    submitMarketOrder b now k id q side = (.ok r, b') → getOrder b id = none →
    Matched b k id side none q r ∧
    ∀ j, getOrder b' j = (getOrder b j).bind (·.reduce (makerFilled r.trades j))
  market_error : ∀ (b : B) now k id q side e b',
    submitMarketOrder b now k id q side = (.error e, b') → ∀ j, getOrder b' j = getOrder b j
  cancel_true : ∀ (b : B) id b', cancelOrder b id = (.ok true, b') →
    (getOrder b id).isSome ∧ ∀ j, getOrder b' j = if j = id then none else getOrder b j
  cancel_false : ∀ (b : B) id b', cancelOrder b id = (.ok false, b') →
    getOrder b id = none ∧ ∀ j, getOrder b' j = getOrder b j
  cancel_error : ∀ (b : B) id e b', cancelOrder b id = (.error e, b') →
    ∀ j, getOrder b' j = getOrder b j
  lapse_getOrder : ∀ now (b : B) j, getOrder (lapse now b) j = getOrder b j ∨
    getOrder (lapse now b) j = none ∧ ∃ o t, getOrder b j = some o ∧
      o.timeInForce = .gtd t ∧ t ≤ now
  snapshot_nodup : ∀ b : B, ((createSnapshot b).orders.map RestingOrder.id).Nodup
  mem_snapshot : ∀ (b : B) o, o ∈ (createSnapshot b).orders ↔ getOrder b o.id = some o
  restore_ok : ∀ (b : B) s b', restoreFromSnapshot b s = (.ok (), b') →
    ∀ j, getOrder b' j = s.orders.find? (·.id = j)
  restore_error : ∀ (b : B) s e b', restoreFromSnapshot b s = (.error e, b') →
    ∀ j, getOrder b' j = getOrder b j
  parse_serialize : ∀ s data, serializeSnapshot B s = .ok data →
    parseSnapshot B data = .ok s
  enlist_perm : ∀ l e, (enlist B l e).Perm (e :: l)
  parse_show : ∀ i, parseOrderId B (showOrderId B i) = some i
  showTradeId_injective : Function.Injective (showTradeId B)

/-- `cancel_order` of an id that rests reports that it removed the order. -/
def CancelRemoves (B : Type) [Upstream B] : Prop :=
  ∀ (b : B) i, (getOrder b i).isSome → (cancelOrder b i).1 = .ok true

theorem showOrderId_injective {B : Type} [Upstream B] [LawfulUpstream B] :
    Function.Injective (showOrderId B) := by
  intro i j h
  have hp := congrArg (parseOrderId B) h
  rw [LawfulUpstream.parse_show, LawfulUpstream.parse_show] at hp
  exact Option.some.inj hp

end OptionChainBackend
