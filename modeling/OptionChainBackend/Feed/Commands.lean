import Mathlib.Data.Finset.Sort
import Mathlib.Data.String.Basic
import OptionChainBackend.Api.Controls
import OptionChainBackend.Auth.Claims
import OptionChainBackend.Feed.Depth

/-!
The commands of a websocket client: `handle_client_message` and the handlers behind it. A
connection keeps one set of entries for order books and one for trades; an entry is a symbol, or
an underlying with `:*` behind it.
-/
namespace OptionChainBackend
open Foundation Upstream MarketMaker Auth

inductive SubscriptionChannel where
  | orderbook | trades | quotes | prices | fills
  deriving DecidableEq, Repr

structure ChannelSubscription where
  channel : SubscriptionChannel
  symbol : Option String
  underlying : Option String
  deriving DecidableEq, Repr

structure SubscriptionResult where
  channel : SubscriptionChannel
  symbol : Option String
  underlying : Option String
  status : String
  deriving DecidableEq, Repr

structure ActiveSubscription where
  channel : SubscriptionChannel
  symbol : Option String
  underlying : Option String
  depth : Option ℕ
  deriving DecidableEq, Repr

/-- The messages a command is answered with. -/
inductive WsMessage where
  | error (message : String)
  | subscribed (channel symbol : String)
  | unsubscribed (channel symbol : String)
  | orderbookSnapshot (channel symbol : String) (sequence : ℕ) (bids asks : List PriceLevelData)
  | batchSubscribed (requestId : Option String) (subscriptions : List SubscriptionResult)
  | batchUnsubscribed (requestId : Option String) (subscriptions : List SubscriptionResult)
  | subscriptionList (active : List ActiveSubscription)
  deriving DecidableEq, Repr

structure ClientCommand (F : Type) where
  action : String
  channel : Option String
  symbol : Option String
  depth : Option ℕ
  value : Option F
  requestId : Option String
  channels : Option (List ChannelSubscription)

/-- The subscriptions of a connection, and what it was sent in answer to its commands. -/
structure Connection where
  subscribedSymbols : Finset String
  subscribedTrades : Finset String
  sent : List WsMessage

namespace Websocket

def maxSubscriptionsPerConnection : ℕ := 256

def canAddSubscription (set : Finset String) (symbol : String) : Bool :=
  symbol ∈ set || set.card < maxSubscriptionsPerConnection

/-- The entry of a whole underlying. -/
def wildcard (underlying : String) : String := underlying ++ ":*"

/-- `subscription_matches`: the symbol itself, or the wildcard of what stands before its first
dash. -/
def subscriptionMatches (subscribed : Finset String) (symbol : String) : Bool :=
  symbol ∈ subscribed ||
    '-' ∈ symbol.toList &&
      wildcard (String.ofList (symbol.toList.takeWhile (· ≠ '-'))) ∈ subscribed

end Websocket

namespace Connection
open Websocket

def send (c : Connection) (m : WsMessage) : Connection := { c with sent := c.sent ++ [m] }

/-- The checks of a subscribe command on one of the two sets. -/
def checkSubscription (channel : String) (set : Finset String) :
    Option String → Except String String
  | none => .error ("Symbol required for " ++ channel ++ " subscription")
  | some symbol =>
    if (symbolParts symbol).length < 4 then
      .error ("Invalid symbol format: " ++ symbol ++
        ". Expected: UNDERLYING-EXPIRATION-STRIKE-STYLE")
    else if canAddSubscription set symbol then .ok symbol
    else .error (channel ++ " subscription limit reached (" ++
      toString maxSubscriptionsPerConnection ++ "); unsubscribe before adding more")

def handleTradesSubscribe (c : Connection) (symbol : Option String) : Connection :=
  match checkSubscription "trades" c.subscribedTrades symbol with
  | .error message => c.send (.error message)
  | .ok symbol =>
    { c with subscribedTrades := insert symbol c.subscribedTrades }.send
      (.subscribed "trades" symbol)

def handleOrderbookUnsubscribe (c : Connection) : Option String → Connection
  | none => c.send (.error "Symbol required for orderbook unsubscription")
  | some symbol =>
    { c with subscribedSymbols := c.subscribedSymbols.erase symbol }.send
      (.unsubscribed "orderbook" symbol)

def handleTradesUnsubscribe (c : Connection) : Option String → Connection
  | none => c.send (.error "Symbol required for trades unsubscription")
  | some symbol =>
    { c with subscribedTrades := c.subscribedTrades.erase symbol }.send
      (.unsubscribed "trades" symbol)

section Batch

/-- One entry of a batch subscription on its set. -/
def subscribeEntry (set : Finset String) (sub : ChannelSubscription) :
    SubscriptionResult × Finset String :=
  match sub.symbol, sub.underlying with
  | some symbol, _ =>
    if (symbolParts symbol).length < 4 then
      (⟨sub.channel, some symbol, sub.underlying, "error: invalid symbol format"⟩, set)
    else if canAddSubscription set symbol then
      (⟨sub.channel, some symbol, none, "ok"⟩, insert symbol set)
    else (⟨sub.channel, some symbol, none, "error: subscription limit reached"⟩, set)
  | none, some underlying =>
    if canAddSubscription set (wildcard underlying) then
      (⟨sub.channel, none, some underlying, "ok"⟩, insert (wildcard underlying) set)
    else (⟨sub.channel, none, some underlying, "error: subscription limit reached"⟩, set)
  | none, none => (⟨sub.channel, none, none, "error: symbol or underlying required"⟩, set)

def unsubscribeEntry (set : Finset String) (sub : ChannelSubscription) :
    SubscriptionResult × Finset String :=
  match sub.symbol, sub.underlying with
  | some symbol, _ => (⟨sub.channel, some symbol, none, "ok"⟩, set.erase symbol)
  | none, some underlying =>
    (⟨sub.channel, none, some underlying, "ok"⟩, set.erase (wildcard underlying))
  | none, none => (⟨sub.channel, none, none, "error: symbol or underlying required"⟩, set)

/-- An entry goes to the set of its channel; the other channels are accepted and kept nowhere. -/
def processChannel (f : Finset String → ChannelSubscription → SubscriptionResult × Finset String)
    (c : Connection) (sub : ChannelSubscription) : SubscriptionResult × Connection :=
  match sub.channel with
  | .orderbook =>
    let out := f c.subscribedSymbols sub
    (out.1, { c with subscribedSymbols := out.2 })
  | .trades =>
    let out := f c.subscribedTrades sub
    (out.1, { c with subscribedTrades := out.2 })
  | _ => (⟨sub.channel, sub.symbol, sub.underlying, "ok"⟩, c)

def processChannelSubscription : Connection → ChannelSubscription →
    SubscriptionResult × Connection := processChannel subscribeEntry

def processChannelUnsubscription : Connection → ChannelSubscription →
    SubscriptionResult × Connection := processChannel unsubscribeEntry

def processAll (f : Connection → ChannelSubscription → SubscriptionResult × Connection)
    (c : Connection) (subs : List ChannelSubscription) : List SubscriptionResult × Connection :=
  subs.foldl (fun acc sub => (acc.1 ++ [(f acc.2 sub).1], (f acc.2 sub).2)) ([], c)

def handleBatchSubscribe (c : Connection) (requestId : Option String) :
    Option (List ChannelSubscription) → Connection
  | none => c.send (.error "channels array required for batch_subscribe")
  | some subs =>
    let out := processAll processChannelSubscription c subs
    out.2.send (.batchSubscribed requestId out.1)

def handleBatchUnsubscribe (c : Connection) (requestId : Option String) :
    Option (List ChannelSubscription) → Connection
  | none => c.send (.error "channels array required for batch_unsubscribe")
  | some subs =>
    let out := processAll processChannelUnsubscription c subs
    out.2.send (.batchUnsubscribed requestId out.1)

end Batch

section Listing

/-- `trim_end_matches(":*")` on the reversed text. -/
def trimWildcards : List Char → List Char
  | '*' :: ':' :: cs => trimWildcards cs
  | cs => cs

def activeEntry (channel : SubscriptionChannel) (depth : Option ℕ) (entry : String) :
    ActiveSubscription :=
  if ":*".toList <:+: entry.toList then
    ⟨channel, none, some (String.ofList (trimWildcards entry.toList.reverse).reverse), none⟩
  else ⟨channel, some entry, none, depth⟩

/-- The sets are read in some order; here the entries are sorted. -/
def handleListSubscriptions (c : Connection) : Connection :=
  c.send (.subscriptionList
    ((c.subscribedSymbols.sort (· ≤ ·)).map (activeEntry .orderbook (some 10)) ++
      (c.subscribedTrades.sort (· ≤ ·)).map (activeEntry .trades none)))

/-- What the list command answers. -/
def listed (c : Connection) : List ActiveSubscription :=
  (c.subscribedSymbols.sort (· ≤ ·)).map (activeEntry .orderbook (some 10)) ++
    (c.subscribedTrades.sort (· ≤ ·)).map (activeEntry .trades none)

end Listing

end Connection

section Subscribe
variable {B : Type} [Upstream B] [Leveled B]
open Websocket

/-- The snapshot message of a subscription, when its symbol leads to a book. It carries the
client's own spelling, and a number drawn for that spelling. -/
def snapshotReply (x : Exchange B) (f : Subscriptions) (symbol : String) (depth : ℕ) :
    Option (WsMessage × Subscriptions) :=
  (snapshotBook x symbol).map fun b =>
    let (sequence, f) := f.nextSequence symbol
    (.orderbookSnapshot "orderbook" symbol sequence (Leveled.levels (x.books b) depth .buy)
      (Leveled.levels (x.books b) depth .sell), f)

def handleOrderbookSubscribe (x : Exchange B) (f : Subscriptions) (c : Connection)
    (symbol : Option String) (depth : Option ℕ) : Connection × Subscriptions :=
  match Connection.checkSubscription "orderbook" c.subscribedSymbols symbol with
  | .error message => (c.send (.error message), f)
  | .ok symbol =>
    let c := { c with subscribedSymbols := insert symbol c.subscribedSymbols }.send
      (.subscribed "orderbook" symbol)
    match snapshotReply x f symbol (depth.getD 10) with
    | some (m, f) => (c.send m, f)
    | none => (c, f)

end Subscribe

section Messages
variable {B F : Type} [Upstream B] [Leveled B] [F64 F] (display : F → String)

/-- The state of the process beside one of its connections. -/
abbrev Served (B F : Type) := AppState B F × Connection

/-- A value of a control command is applied when it is valid; without one nothing happens. -/
def setControl (s : AppState B F) (c : Connection) (check : F → Except String F)
    (op : F → Operation F) : Option F → Served B F
  | none => (s, c)
  | some value =>
    match check value with
    | .ok v => (s.step (.engine (op v)), c)
    | .error message => (s, c.send (.error message))

def runControl (s : AppState B F) (c : Connection) (cmd : ClientCommand F) : Served B F :=
  match cmd.action with
  | "set_spread" => setControl s c (validateSpread display) .setSpreadMultiplier cmd.value
  | "set_size" => setControl s c (validateSize display) .setSizeScalar cmd.value
  | "set_skew" => setControl s c (validateSkew display) .setDirectionalSkew cmd.value
  | "kill" => (s.step (.engine (.setEnabled false)), c)
  | "enable" => (s.step (.engine (.setEnabled true)), c)
  | _ => (s, c)

/-- Without a channel, or with an unknown one, a subscribe command does nothing. -/
def runSubscribe (s : AppState B F) (c : Connection) (cmd : ClientCommand F) : Served B F :=
  match cmd.channel with
  | some "orderbook" =>
    let out := handleOrderbookSubscribe s.market s.toSubscriptions c cmd.symbol cmd.depth
    ({ s with toSubscriptions := out.2 }, out.1)
  | some "trades" => (s, c.handleTradesSubscribe cmd.symbol)
  | _ => (s, c)

def runUnsubscribe (c : Connection) (cmd : ClientCommand F) : Connection :=
  match cmd.channel with
  | some "orderbook" => c.handleOrderbookUnsubscribe cmd.symbol
  | some "trades" => c.handleTradesUnsubscribe cmd.symbol
  | _ => c

def handleCommand (permissions : List Permission) (s : AppState B F) (c : Connection)
    (cmd : ClientCommand F) : Served B F :=
  match cmd.action with
  | "subscribe" => runSubscribe s c cmd
  | "unsubscribe" => (s, runUnsubscribe c cmd)
  | "set_spread" | "set_size" | "set_skew" | "kill" | "enable" =>
    if Permission.admin ∈ permissions then runControl display s c cmd
    else (s, c.send (.error "forbidden: admin permission required"))
  | "batch_subscribe" => (s, c.handleBatchSubscribe cmd.requestId cmd.channels)
  | "batch_unsubscribe" => (s, c.handleBatchUnsubscribe cmd.requestId cmd.channels)
  | "list_subscriptions" => (s, c.handleListSubscriptions)
  | _ => (s, c)

/-- `parse` reads a text as a command; a text that is none is ignored. -/
def handleClientMessage (parse : String → Option (ClientCommand F)) (permissions : List Permission)
    (s : AppState B F) (c : Connection) (text : String) : Served B F :=
  match parse text with
  | some cmd => handleCommand display permissions s c cmd
  | none => (s, c)

end Messages
end OptionChainBackend
