import OptionChainBackend.Client.Requests
import OptionChainBackend.Feed.Subscribed

/-!
The messages of a WebSocket session as JSON: what the server writes and the client reads, and the
commands that go the other way.
-/
namespace OptionChainBackend
open Foundation Foundation.Json Upstream MarketMaker

/-- What the server sends on a connection: answers to its commands, and what its loop passes on. -/
inductive ServerMessage (F : Type) where
  | answer (m : WsMessage)
  | event (e : MarketMakerEvent F)
  | delta (d : OrderbookDeltaEvent)
  | trade (t : TradeEvent)
  | connected (message : String)
  | heartbeat (timestamp : ℕ)

namespace OrderbookClient

/-- `WsMessage` of the client. -/
inductive Message (F : Type) where
  | quote (symbol expiration : String) (strike : ℕ) (style : String)
      (bidPrice askPrice bidSize askSize : ℕ)
  | fill (orderId symbol instrument side : String) (quantity price : ℕ) (edge : ℤ)
  | config (enabled : Bool) (spreadMultiplier sizeScalar directionalSkew : F)
  | price (symbol : String) (priceCents : ℕ)
  | connected (message : String)
  | heartbeat (timestamp : ℕ)
  | orderbookSnapshot (channel symbol : String) (sequence : ℕ) (bids asks : List PriceLevelData)
  | orderbookDelta (symbol : String) (sequence : ℕ) (changes : List PriceLevelChange)
  | subscribed (channel symbol : String)
  | unsubscribed (channel symbol : String)
  | error (message : String)
  | trade (tradeId symbol : String) (price quantity timestampMs : ℕ)
      (makerOrderId takerOrderId : String)
  | batchSubscribed (requestId : Option String) (subscriptions : List SubscriptionResult)
  | batchUnsubscribed (requestId : Option String) (subscriptions : List SubscriptionResult)
  | subscriptionList (active : List ActiveSubscription)

structure ChannelSubscription where
  channel : SubscriptionChannel
  symbol : Option String
  underlying : Option String
  expiration : Option String
  depth : Option U64

structure ClientCommand (F : Type) where
  action : String
  channel : Option String
  symbol : Option String
  depth : Option U64
  value : Option F
  requestId : Option String
  channels : Option (List ChannelSubscription)

end OrderbookClient

section Write
variable {F : Type} [F64 F] (carried : F → F)

def writeText (s : String) : Option (Json F) := some (.str s)
def writeNat (n : ℕ) : Option (Json F) := some (.int n)

/-- `#[serde(tag = "type", content = "data")]`. -/
def tagged (tag : String) (fields : List (String × Option (Json F))) : Json F :=
  record [("type", some (.str tag)), ("data", some (record fields))]

def PriceLevelData.json (l : PriceLevelData) : Json F :=
  record [("price", writeNat l.price), ("quantity", writeNat l.quantity)]

def PriceLevelChange.json (c : PriceLevelChange) : Json F :=
  record [("side", writeText c.side), ("price", writeNat c.price),
    ("quantity", writeNat c.quantity)]

def SubscriptionResult.json (r : SubscriptionResult) : Json F :=
  record [("channel", writeText r.channel.name), ("symbol", r.symbol.map .str),
    ("underlying", r.underlying.map .str), ("status", writeText r.status)]

def ActiveSubscription.json (a : ActiveSubscription) : Json F :=
  record [("channel", writeText a.channel.name), ("symbol", a.symbol.map .str),
    ("underlying", a.underlying.map .str), ("depth", a.depth.map fun d : ℕ => .int d)]

def WsMessage.json : WsMessage → Json F
  | .error message => tagged "error" [("message", writeText message)]
  | .subscribed channel symbol =>
    tagged "subscribed" [("channel", writeText channel), ("symbol", writeText symbol)]
  | .unsubscribed channel symbol =>
    tagged "unsubscribed" [("channel", writeText channel), ("symbol", writeText symbol)]
  | .orderbookSnapshot channel symbol sequence bids asks =>
    tagged "orderbook_snapshot" [("channel", writeText channel), ("symbol", writeText symbol),
      ("sequence", writeNat sequence), ("bids", some (.arr (bids.map PriceLevelData.json))),
      ("asks", some (.arr (asks.map PriceLevelData.json)))]
  | .batchSubscribed requestId subscriptions =>
    tagged "batch_subscribed" [("request_id", requestId.map .str),
      ("subscriptions", some (.arr (subscriptions.map SubscriptionResult.json)))]
  | .batchUnsubscribed requestId subscriptions =>
    tagged "batch_unsubscribed" [("request_id", requestId.map .str),
      ("subscriptions", some (.arr (subscriptions.map SubscriptionResult.json)))]
  | .subscriptionList active =>
    tagged "subscriptions" [("active", some (.arr (active.map ActiveSubscription.json)))]

/-- `event_to_ws_message`, written. -/
def MarketMakerEvent.json : MarketMakerEvent F → Json F
  | .quoteUpdated symbol expiration strike style bidPrice askPrice bidSize askSize =>
    tagged "quote" [("symbol", writeText symbol), ("expiration", writeText expiration),
      ("strike", writeNat strike), ("style", writeText style), ("bid_price", writeNat bidPrice),
      ("ask_price", writeNat askPrice), ("bid_size", writeNat bidSize),
      ("ask_size", writeNat askSize)]
  | .orderFilled orderId symbol instrument side quantity price edge =>
    tagged "fill" [("order_id", writeText orderId), ("symbol", writeText symbol),
      ("instrument", writeText instrument), ("side", writeText side),
      ("quantity", writeNat quantity), ("price", writeNat price), ("edge", some (.int edge))]
  | .configChanged enabled spreadMultiplier sizeScalar directionalSkew =>
    tagged "config" [("enabled", some (.bool enabled)),
      ("spread_multiplier", some (OrderbookClient.writeFloat carried spreadMultiplier)),
      ("size_scalar", some (OrderbookClient.writeFloat carried sizeScalar)),
      ("directional_skew", some (OrderbookClient.writeFloat carried directionalSkew))]
  | .priceUpdated symbol priceCents =>
    tagged "price" [("symbol", writeText symbol), ("price_cents", writeNat priceCents)]

def ServerMessage.json : ServerMessage F → Json F
  | .answer m => m.json
  | .event e => MarketMakerEvent.json carried e
  | .delta d => tagged "orderbook_delta" [("symbol", writeText d.symbol),
      ("sequence", writeNat d.sequence), ("changes", some (.arr [d.change.json]))]
  | .trade t => tagged "trade" [("trade_id", writeText t.tradeId), ("symbol", writeText t.symbol),
      ("price", writeNat t.price), ("quantity", writeNat t.quantity),
      ("timestamp_ms", writeNat t.timestampMs), ("maker_order_id", writeText t.makerOrderId),
      ("taker_order_id", writeText t.takerOrderId)]
  | .connected message => tagged "connected" [("message", writeText message)]
  | .heartbeat timestamp => tagged "heartbeat" [("timestamp", writeNat timestamp)]

namespace OrderbookClient

def ChannelSubscription.json (s : ChannelSubscription) : Json F :=
  record [("channel", writeText s.channel.name), ("symbol", s.symbol.map .str),
    ("underlying", s.underlying.map .str), ("expiration", s.expiration.map .str),
    ("depth", s.depth.map writeUnsigned)]

def ClientCommand.json (c : ClientCommand F) : Json F :=
  record [("action", writeText c.action), ("channel", c.channel.map .str),
    ("symbol", c.symbol.map .str), ("depth", c.depth.map writeUnsigned),
    ("value", c.value.map (writeFloat carried)), ("request_id", c.requestId.map .str),
    ("channels", c.channels.map fun l => .arr (l.map ChannelSubscription.json))]

end OrderbookClient
end Write

section Read
variable {F : Type} [F64 F]

def readChannel (j : Json F) : Option SubscriptionChannel := do
  match ← asString j with
  | "orderbook" => some .orderbook
  | "trades" => some .trades
  | "quotes" => some .quotes
  | "prices" => some .prices
  | "fills" => some .fills
  | _ => none

/-- The expiration and the depth are read too; nothing uses them. -/
def readChannelSubscription (j : Json F) : Option ChannelSubscription := do
  let channel ← required readChannel "channel" j
  let symbol ← optional asString "symbol" j
  let underlying ← optional asString "underlying" j
  let _ ← optional asString "expiration" j
  let _ ← optional (asUnsigned 64) "depth" j
  return ⟨channel, symbol, underlying⟩

/-- `ClientCommand` of the server. -/
def readCommand (j : Json F) : Option (ClientCommand F) := do
  let action ← required asString "action" j
  let channel ← optional asString "channel" j
  let symbol ← optional asString "symbol" j
  let depth ← optional (asUnsigned 64) "depth" j
  let value ← optional readFloat "value" j
  let requestId ← optional asString "request_id" j
  let channels ← optional (asList readChannelSubscription) "channels" j
  return ⟨action, channel, symbol, depth, value, requestId, channels⟩

def readLevel (j : Json F) : Option PriceLevelData := do
  let price ← required (asUnsigned 128) "price" j
  let quantity ← required (asUnsigned 64) "quantity" j
  return ⟨price, quantity⟩

def readChange (j : Json F) : Option PriceLevelChange := do
  let side ← required asString "side" j
  let price ← required (asUnsigned 128) "price" j
  let quantity ← required (asUnsigned 64) "quantity" j
  return ⟨side, price, quantity⟩

def readResult (j : Json F) : Option SubscriptionResult := do
  let channel ← required readChannel "channel" j
  let symbol ← optional asString "symbol" j
  let underlying ← optional asString "underlying" j
  let status ← required asString "status" j
  return ⟨channel, symbol, underlying, status⟩

def readActive (j : Json F) : Option ActiveSubscription := do
  let channel ← required readChannel "channel" j
  let symbol ← optional asString "symbol" j
  let underlying ← optional asString "underlying" j
  let depth ← optional (asUnsigned 64) "depth" j
  return ⟨channel, symbol, underlying, depth⟩

namespace OrderbookClient

/-- The content of a message, by its tag. -/
def readContent (tag : String) (j : Json F) : Option (Message F) :=
  match tag with
  | "quote" => do
    let symbol ← required asString "symbol" j
    let expiration ← required asString "expiration" j
    let strike ← required (asUnsigned 64) "strike" j
    let style ← required asString "style" j
    let bidPrice ← required (asUnsigned 128) "bid_price" j
    let askPrice ← required (asUnsigned 128) "ask_price" j
    let bidSize ← required (asUnsigned 64) "bid_size" j
    let askSize ← required (asUnsigned 64) "ask_size" j
    return .quote symbol expiration strike style bidPrice askPrice bidSize askSize
  | "fill" => do
    let orderId ← required asString "order_id" j
    let symbol ← required asString "symbol" j
    let instrument ← required asString "instrument" j
    let side ← required asString "side" j
    let quantity ← required (asUnsigned 64) "quantity" j
    let price ← required (asUnsigned 128) "price" j
    let edge ← required (asSigned 64) "edge" j
    return .fill orderId symbol instrument side quantity price edge
  | "config" => do
    let enabled ← required asBool "enabled" j
    let spreadMultiplier ← required readFloat "spread_multiplier" j
    let sizeScalar ← required readFloat "size_scalar" j
    let directionalSkew ← required readFloat "directional_skew" j
    return .config enabled spreadMultiplier sizeScalar directionalSkew
  | "price" => do
    let symbol ← required asString "symbol" j
    let priceCents ← required (asUnsigned 64) "price_cents" j
    return .price symbol priceCents
  | "connected" => (required asString "message" j).map .connected
  | "heartbeat" => (required (asUnsigned 64) "timestamp" j).map .heartbeat
  | "orderbook_snapshot" => do
    let channel ← required asString "channel" j
    let symbol ← required asString "symbol" j
    let sequence ← required (asUnsigned 64) "sequence" j
    let bids ← required (asList readLevel) "bids" j
    let asks ← required (asList readLevel) "asks" j
    return .orderbookSnapshot channel symbol sequence bids asks
  | "orderbook_delta" => do
    let symbol ← required asString "symbol" j
    let sequence ← required (asUnsigned 64) "sequence" j
    let changes ← required (asList readChange) "changes" j
    return .orderbookDelta symbol sequence changes
  | "subscribed" => do
    let channel ← required asString "channel" j
    let symbol ← required asString "symbol" j
    return .subscribed channel symbol
  | "unsubscribed" => do
    let channel ← required asString "channel" j
    let symbol ← required asString "symbol" j
    return .unsubscribed channel symbol
  | "error" => (required asString "message" j).map .error
  | "trade" => do
    let tradeId ← required asString "trade_id" j
    let symbol ← required asString "symbol" j
    let price ← required (asUnsigned 128) "price" j
    let quantity ← required (asUnsigned 64) "quantity" j
    let timestampMs ← required (asUnsigned 64) "timestamp_ms" j
    let makerOrderId ← required asString "maker_order_id" j
    let takerOrderId ← required asString "taker_order_id" j
    return .trade tradeId symbol price quantity timestampMs makerOrderId takerOrderId
  | "batch_subscribed" => do
    let requestId ← optional asString "request_id" j
    let subscriptions ← required (asList readResult) "subscriptions" j
    return .batchSubscribed requestId subscriptions
  | "batch_unsubscribed" => do
    let requestId ← optional asString "request_id" j
    let subscriptions ← required (asList readResult) "subscriptions" j
    return .batchUnsubscribed requestId subscriptions
  | "subscriptions" => (required (asList readActive) "active" j).map .subscriptionList
  | _ => none

def readMessage (j : Json F) : Option (Message F) := do
  let tag ← required asString "type" j
  let content ← required some "data" j
  readContent tag content

end OrderbookClient
end Read

section Typed

/-- The numbers have the width of their types. -/
def PriceLevelData.Typed (l : PriceLevelData) : Prop := l.price < 2 ^ 128 ∧ l.quantity < 2 ^ 64

def PriceLevelChange.Typed (c : PriceLevelChange) : Prop := c.price < 2 ^ 128 ∧ c.quantity < 2 ^ 64

def ActiveSubscription.Typed (a : ActiveSubscription) : Prop := ∀ d ∈ a.depth, d < 2 ^ 64

def WsMessage.Typed : WsMessage → Prop
  | .orderbookSnapshot _ _ sequence bids asks =>
    sequence < 2 ^ 64 ∧ (∀ l ∈ bids, l.Typed) ∧ ∀ l ∈ asks, l.Typed
  | .subscriptionList active => ∀ a ∈ active, a.Typed
  | _ => True

def MarketMakerEvent.Typed {F : Type} [F64 F] : MarketMakerEvent F → Prop
  | .quoteUpdated _ _ strike _ bidPrice askPrice bidSize askSize =>
    strike < 2 ^ 64 ∧ bidPrice < 2 ^ 128 ∧ askPrice < 2 ^ 128 ∧ bidSize < 2 ^ 64 ∧ askSize < 2 ^ 64
  | .orderFilled _ _ _ _ quantity price edge =>
    quantity < 2 ^ 64 ∧ price < 2 ^ 128 ∧ -2 ^ 63 ≤ edge ∧ edge < 2 ^ 63
  | .configChanged _ spreadMultiplier sizeScalar directionalSkew =>
    F64.isFinite spreadMultiplier = true ∧ F64.isFinite sizeScalar = true ∧
      F64.isFinite directionalSkew = true
  | .priceUpdated _ priceCents => priceCents < 2 ^ 64

/-- The numbers have the width of their types, and the floating-point ones are finite. -/
def ServerMessage.Typed {F : Type} [F64 F] : ServerMessage F → Prop
  | .answer m => m.Typed
  | .event e => MarketMakerEvent.Typed e
  | .delta d => d.sequence < 2 ^ 64 ∧ d.change.Typed
  | .trade t => t.price < 2 ^ 128 ∧ t.quantity < 2 ^ 64 ∧ t.timestampMs < 2 ^ 64
  | .connected _ => True
  | .heartbeat timestamp => timestamp < 2 ^ 64

instance (l : PriceLevelData) : Decidable l.Typed := inferInstanceAs (Decidable (_ ∧ _))

instance (c : PriceLevelChange) : Decidable c.Typed := inferInstanceAs (Decidable (_ ∧ _))

instance (a : ActiveSubscription) : Decidable a.Typed :=
  inferInstanceAs (Decidable (∀ d ∈ a.depth, d < 2 ^ 64))

instance : (m : WsMessage) → Decidable m.Typed
  | .orderbookSnapshot .. => inferInstanceAs (Decidable (_ ∧ _ ∧ _))
  | .subscriptionList active => inferInstanceAs (Decidable (∀ a ∈ active, a.Typed))
  | .error _ | .subscribed .. | .unsubscribed .. | .batchSubscribed .. | .batchUnsubscribed .. =>
    .isTrue trivial

instance {F : Type} [F64 F] : (e : MarketMakerEvent F) → Decidable (MarketMakerEvent.Typed e)
  | .quoteUpdated .. => inferInstanceAs (Decidable (_ ∧ _ ∧ _ ∧ _ ∧ _))
  | .orderFilled .. => inferInstanceAs (Decidable (_ ∧ _ ∧ _ ∧ _))
  | .configChanged .. => inferInstanceAs (Decidable (_ ∧ _ ∧ _))
  | .priceUpdated _ priceCents => inferInstanceAs (Decidable (priceCents < 2 ^ 64))

instance {F : Type} [F64 F] : (m : ServerMessage F) → Decidable m.Typed
  | .answer m => inferInstanceAs (Decidable m.Typed)
  | .event e => inferInstanceAs (Decidable (MarketMakerEvent.Typed e))
  | .delta _ => inferInstanceAs (Decidable (_ ∧ _))
  | .trade _ => inferInstanceAs (Decidable (_ ∧ _ ∧ _))
  | .connected _ => .isTrue trivial
  | .heartbeat timestamp => inferInstanceAs (Decidable (timestamp < 2 ^ 64))

end Typed

namespace OrderbookClient
section Agreement
variable {F : Type} [F64 F] (carried : F → F)

/-- The message a client is meant to get. -/
def Message.ofServer : ServerMessage F → Message F
  | .answer (.error message) => .error message
  | .answer (.subscribed channel symbol) => .subscribed channel symbol
  | .answer (.unsubscribed channel symbol) => .unsubscribed channel symbol
  | .answer (.orderbookSnapshot channel symbol sequence bids asks) =>
    .orderbookSnapshot channel symbol sequence bids asks
  | .answer (.batchSubscribed requestId subscriptions) => .batchSubscribed requestId subscriptions
  | .answer (.batchUnsubscribed requestId subscriptions) =>
    .batchUnsubscribed requestId subscriptions
  | .answer (.subscriptionList active) => .subscriptionList active
  | .event (.quoteUpdated symbol expiration strike style bidPrice askPrice bidSize askSize) =>
    .quote symbol expiration strike style bidPrice askPrice bidSize askSize
  | .event (.orderFilled orderId symbol instrument side quantity fillPrice edge) =>
    .fill orderId symbol instrument side quantity fillPrice edge
  | .event (.configChanged enabled spreadMultiplier sizeScalar directionalSkew) =>
    .config enabled (carried spreadMultiplier) (carried sizeScalar) (carried directionalSkew)
  | .event (.priceUpdated symbol priceCents) => .price symbol priceCents
  | .delta d => .orderbookDelta d.symbol d.sequence [d.change]
  | .trade t =>
    .trade t.tradeId t.symbol t.price t.quantity t.timestampMs t.makerOrderId t.takerOrderId
  | .connected message => .connected message
  | .heartbeat timestamp => .heartbeat timestamp

omit [F64 F] in
theorem readChannel_name (c : SubscriptionChannel) :
    readChannel (.str c.name : Json F) = some c := by
  cases c <;> rfl

section Fields
omit [F64 F]
variable {fields : List (String × Option (Json F))} {name : String}

theorem required_text (hn : (fields.map Prod.fst).Nodup) {s : String}
    (h : fields.lookup name = some (writeText s)) :
    required asString name (record fields) = some s :=
  required_record hn asString h

theorem required_nat (hn : (fields.map Prod.fst).Nodup) {n : ℕ}
    (h : fields.lookup name = some (writeNat n)) {w : ℕ} (hw : n < 2 ^ w) :
    required (asUnsigned w) name (record fields) = some n :=
  (required_record hn (asUnsigned w) h).trans (asUnsigned_int hw)

theorem optional_text (hn : (fields.map Prod.fst).Nodup) {o : Option String}
    (h : fields.lookup name = some (o.map .str)) :
    optional asString name (record fields) = some o := by
  rw [optional_record hn h (fun s _ => asString_str s) (by simp), Option.map_id']

theorem required_list (hn : (fields.map Prod.fst).Nodup) {α : Type} {l : List α}
    {write : α → Json F} {read : Json F → Option α}
    (h : fields.lookup name = some (some (.arr (l.map write))))
    (hread : ∀ a ∈ l, read (write a) = some a) :
    required (asList read) name (record fields) = some l := by
  rw [required_record hn (asList read) h, asList_map hread, List.map_id']

end Fields

section Parts
omit [F64 F]

theorem readLevel_json {l : PriceLevelData} (h : l.Typed) :
    readLevel (l.json : Json F) = some l := by
  unfold readLevel PriceLevelData.json
  rw [required_nat (by simp) rfl h.1, required_nat (by simp) rfl h.2]
  rfl

theorem readChange_json {c : PriceLevelChange} (h : c.Typed) :
    readChange (c.json : Json F) = some c := by
  unfold readChange PriceLevelChange.json
  rw [required_text (by simp) rfl, required_nat (by simp) rfl h.1, required_nat (by simp) rfl h.2]
  rfl

theorem readResult_json (r : SubscriptionResult) : readResult (r.json : Json F) = some r := by
  unfold readResult SubscriptionResult.json
  rw [required_record (by simp) readChannel rfl, readChannel_name, optional_text (by simp) rfl,
    optional_text (by simp) rfl, required_text (by simp) rfl]
  rfl

theorem readActive_json {a : ActiveSubscription} (h : a.Typed) :
    readActive (a.json : Json F) = some a := by
  unfold readActive ActiveSubscription.json
  rw [required_record (by simp) readChannel rfl, readChannel_name, optional_text (by simp) rfl,
    optional_text (by simp) rfl,
    optional_record (by simp) rfl (fun d hd => asUnsigned_int (h d hd)) (by simp)]
  obtain ⟨channel, symbol, underlying, depth⟩ := a
  cases depth <;> rfl

end Parts

theorem readMessage_tagged (tag : String) (fields : List (String × Option (Json F))) :
    readMessage (tagged tag fields) = readContent tag (record fields) := by
  unfold readMessage tagged
  rw [required_record (by simp) asString rfl, required_record (by simp) some rfl]
  rfl

theorem readMessage_answer {m : WsMessage} (h : m.Typed) :
    readMessage (m.json : Json F) = some (Message.ofServer carried (.answer m)) := by
  cases m with
  | error message =>
    simp only [WsMessage.json, readMessage_tagged, readContent]
    rw [required_text (by simp) rfl]
    rfl
  | subscribed channel symbol =>
    simp only [WsMessage.json, readMessage_tagged, readContent]
    rw [required_text (by simp) rfl, required_text (by simp) rfl]
    rfl
  | unsubscribed channel symbol =>
    simp only [WsMessage.json, readMessage_tagged, readContent]
    rw [required_text (by simp) rfl, required_text (by simp) rfl]
    rfl
  | orderbookSnapshot channel symbol sequence bids asks =>
    obtain ⟨hsequence, hbids, hasks⟩ := h
    simp only [WsMessage.json, readMessage_tagged, readContent]
    rw [required_text (by simp) rfl, required_text (by simp) rfl,
      required_nat (by simp) rfl hsequence,
      required_list (by simp) rfl fun l hl => readLevel_json (hbids l hl),
      required_list (by simp) rfl fun l hl => readLevel_json (hasks l hl)]
    rfl
  | batchSubscribed requestId subscriptions =>
    simp only [WsMessage.json, readMessage_tagged, readContent]
    rw [optional_text (by simp) rfl, required_list (by simp) rfl fun r _ => readResult_json r]
    rfl
  | batchUnsubscribed requestId subscriptions =>
    simp only [WsMessage.json, readMessage_tagged, readContent]
    rw [optional_text (by simp) rfl, required_list (by simp) rfl fun r _ => readResult_json r]
    rfl
  | subscriptionList active =>
    simp only [WsMessage.json, readMessage_tagged, readContent]
    rw [required_list (by simp) rfl fun a ha => readActive_json (h a ha)]
    rfl

theorem readMessage_event {e : MarketMakerEvent F} (h : MarketMakerEvent.Typed e) :
    readMessage (MarketMakerEvent.json carried e) = some (Message.ofServer carried (.event e)) := by
  cases e with
  | quoteUpdated symbol expiration strike style bidPrice askPrice bidSize askSize =>
    obtain ⟨hstrike, hbid, hask, hbidSize, haskSize⟩ := h
    simp only [MarketMakerEvent.json, readMessage_tagged, readContent]
    rw [required_text (by simp) rfl, required_text (by simp) rfl,
      required_nat (by simp) rfl hstrike, required_text (by simp) rfl,
      required_nat (by simp) rfl hbid, required_nat (by simp) rfl hask,
      required_nat (by simp) rfl hbidSize, required_nat (by simp) rfl haskSize]
    rfl
  | orderFilled orderId symbol instrument side quantity price edge =>
    obtain ⟨hquantity, hprice, hedge⟩ := h
    have hsigned : asSigned 64 (.int edge : Json F) = some edge := if_pos hedge
    simp only [MarketMakerEvent.json, readMessage_tagged, readContent]
    rw [required_text (by simp) rfl, required_text (by simp) rfl, required_text (by simp) rfl,
      required_text (by simp) rfl, required_nat (by simp) rfl hquantity,
      required_nat (by simp) rfl hprice, required_record (by simp) (asSigned 64) rfl, hsigned]
    rfl
  | configChanged enabled spreadMultiplier sizeScalar directionalSkew =>
    obtain ⟨hspread, hsize, hskew⟩ := h
    simp only [MarketMakerEvent.json, readMessage_tagged, readContent]
    rw [required_record (by simp) asBool rfl, required_record (by simp) readFloat rfl,
      readFloat_write carried hspread, required_record (by simp) readFloat rfl,
      readFloat_write carried hsize, required_record (by simp) readFloat rfl,
      readFloat_write carried hskew]
    rfl
  | priceUpdated symbol priceCents =>
    simp only [MarketMakerEvent.json, readMessage_tagged, readContent]
    rw [required_text (by simp) rfl, required_nat (by simp) rfl h]
    rfl

/-- A message of the server is read as it was meant. -/
theorem readMessage_json {m : ServerMessage F} (h : m.Typed) :
    readMessage (m.json carried) = some (Message.ofServer carried m) := by
  cases m with
  | answer m => exact readMessage_answer carried h
  | event e => exact readMessage_event carried h
  | delta d =>
    have hchanges : ∀ c ∈ [d.change], readChange (c.json : Json F) = some c := by
      intro c hc
      obtain rfl := List.mem_singleton.mp hc
      exact readChange_json h.2
    simp only [ServerMessage.json, readMessage_tagged, readContent]
    rw [required_text (by simp) rfl, required_nat (by simp) rfl h.1,
      required_list (by simp) rfl hchanges]
    rfl
  | trade t =>
    obtain ⟨hprice, hquantity, htimestamp⟩ := h
    simp only [ServerMessage.json, readMessage_tagged, readContent]
    rw [required_text (by simp) rfl, required_text (by simp) rfl,
      required_nat (by simp) rfl hprice, required_nat (by simp) rfl hquantity,
      required_nat (by simp) rfl htimestamp, required_text (by simp) rfl,
      required_text (by simp) rfl]
    rfl
  | connected message =>
    simp only [ServerMessage.json, readMessage_tagged, readContent]
    rw [required_text (by simp) rfl]
    rfl
  | heartbeat timestamp =>
    simp only [ServerMessage.json, readMessage_tagged, readContent]
    rw [required_nat (by simp) rfl h]
    rfl

section Commands

def ChannelSubscription.received (s : ChannelSubscription) :
    OptionChainBackend.ChannelSubscription := ⟨s.channel, s.symbol, s.underlying⟩

/-- A value that is not finite is lost on the way. -/
def ClientCommand.received (c : ClientCommand F) : OptionChainBackend.ClientCommand F where
  action := c.action
  channel := c.channel
  symbol := c.symbol
  depth := c.depth.map Fin.val
  value := (c.value.filter F64.isFinite).map carried
  requestId := c.requestId
  channels := c.channels.map fun l => l.map ChannelSubscription.received

omit [F64 F] in
theorem readChannelSubscription_json (s : ChannelSubscription) :
    readChannelSubscription (s.json : Json F) = some s.received := by
  unfold readChannelSubscription ChannelSubscription.json
  rw [required_record (by simp) readChannel rfl, readChannel_name, optional_text (by simp) rfl,
    optional_text (by simp) rfl, optional_text (by simp) rfl,
    optional_record (by simp) rfl (asUnsigned_write_map s.depth) (writeUnsigned_ne_null _)]
  rfl

/-- What is read of an optional number: nothing, when it is not finite. -/
theorem optional_value {fields : List (String × Option (Json F))}
    (hn : (fields.map Prod.fst).Nodup) {name : String} {o : Option F}
    (h : fields.lookup name = some (o.map (writeFloat carried))) :
    optional readFloat name (record fields) = some ((o.filter F64.isFinite).map carried) := by
  cases o with
  | none => exact optional_float carried hn h (by simp)
  | some x =>
    by_cases hx : F64.isFinite x = true
    · rw [optional_float carried hn h (by simpa using hx)]
      simp [Option.filter, hx]
    · simp [Json.optional, field_record hn, h, writeFloat, hx, Option.filter]

/-- A command of the client is read by the server as it was meant. -/
theorem readCommand_json (c : ClientCommand F) :
    readCommand (c.json carried) = some (c.received carried) := by
  have hlist : ∀ l ∈ c.channels, asList readChannelSubscription
      (.arr (l.map ChannelSubscription.json) : Json F) =
        some (l.map ChannelSubscription.received) :=
    fun l _ => asList_map fun s _ => readChannelSubscription_json s
  unfold readCommand ClientCommand.json
  rw [required_text (by simp) rfl, optional_text (by simp) rfl, optional_text (by simp) rfl,
    optional_record (by simp) rfl (asUnsigned_write_map c.depth) (writeUnsigned_ne_null _),
    optional_value carried (by simp) rfl, optional_text (by simp) rfl,
    optional_record (by simp) rfl hlist (by simp)]
  rfl

end Commands

end Agreement
end OrderbookClient
end OptionChainBackend
