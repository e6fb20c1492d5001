import OptionChainBackend.Api.Controls
import OptionChainBackend.Foundation.Json

/-!
Request bodies: what the client writes, what the server reads, and that these agree. A number is
as wide as the source has it; a `f64` is written as it is carried, and as `null` if not finite.
-/
namespace OptionChainBackend
open Foundation Foundation.Json Upstream MarketMaker

abbrev U64 := Fin (2 ^ 64)
abbrev U128 := Fin (2 ^ 128)

/-- `i64`. -/
abbrev I64 := { n : ℤ // -2 ^ 63 ≤ n ∧ n < 2 ^ 63 }

namespace OrderbookClient

structure AddOrderRequest where
  side : Side
  price : U128
  quantity : U64

structure MarketOrderRequest where
  side : Side
  quantity : U64

structure ModifyOrderRequest where
  price : Option U128
  quantity : Option U64

structure BulkOrderItem where
  underlying : String
  expiration : String
  strike : U64
  style : OptionStyle
  side : Side
  price : U128
  quantity : U64

structure BulkOrderRequest where
  orders : List BulkOrderItem
  atomic : Bool

structure CancelAllQuery where
  underlying : Option String
  expiration : Option String
  side : Option Side
  style : Option String

structure UpdateParametersRequest (F : Type) where
  spreadMultiplier : Option F
  sizeScalar : Option F
  directionalSkew : Option F

structure InsertPriceRequest (F : Type) where
  symbol : String
  price : F
  bid : Option F
  ask : Option F
  volume : Option I64
  source : Option String

end OrderbookClient

section Enumerations

def sideName : Side → String
  | .buy => "buy"
  | .sell => "sell"

def styleWireName : OptionStyle → String
  | .call => "call"
  | .put => "put"

end Enumerations

namespace OrderbookClient
variable {F : Type}

section Write

def writeFloat [F64 F] (carried : F → F) (x : F) : Json F :=
  if F64.isFinite x then .float (carried x) else .null

def writeUnsigned {w : ℕ} (n : Fin (2 ^ w)) : Json F := .int n.val

def AddOrderRequest.json (r : AddOrderRequest) : Json F :=
  record [("side", some (.str (sideName r.side))), ("price", some (writeUnsigned r.price)),
    ("quantity", some (writeUnsigned r.quantity))]

def MarketOrderRequest.json (r : MarketOrderRequest) : Json F :=
  record [("side", some (.str (sideName r.side))), ("quantity", some (writeUnsigned r.quantity))]

def ModifyOrderRequest.json (r : ModifyOrderRequest) : Json F :=
  record [("price", r.price.map writeUnsigned), ("quantity", r.quantity.map writeUnsigned)]

def BulkOrderItem.json (i : BulkOrderItem) : Json F :=
  record [("underlying", some (.str i.underlying)), ("expiration", some (.str i.expiration)),
    ("strike", some (writeUnsigned i.strike)), ("style", some (.str (styleWireName i.style))),
    ("side", some (.str (sideName i.side))), ("price", some (writeUnsigned i.price)),
    ("quantity", some (writeUnsigned i.quantity))]

def BulkOrderRequest.json (r : BulkOrderRequest) : Json F :=
  record [("orders", some (.arr (r.orders.map BulkOrderItem.json))),
    ("atomic", some (.bool r.atomic))]

/-- `BulkCancelRequest`. -/
def bulkCancelJson (orderIds : List String) : Json F :=
  record [("order_ids", some (.arr (orderIds.map .str)))]

def UpdateParametersRequest.json [F64 F] (carried : F → F) (r : UpdateParametersRequest F) :
    Json F :=
  record [("spread_multiplier", r.spreadMultiplier.map (writeFloat carried)),
    ("size_scalar", r.sizeScalar.map (writeFloat carried)),
    ("directional_skew", r.directionalSkew.map (writeFloat carried))]

def InsertPriceRequest.json [F64 F] (carried : F → F) (r : InsertPriceRequest F) : Json F :=
  record [("symbol", some (.str r.symbol)), ("price", some (writeFloat carried r.price)),
    ("bid", r.bid.map (writeFloat carried)), ("ask", r.ask.map (writeFloat carried)),
    ("volume", r.volume.map fun v => .int v.val), ("source", r.source.map .str)]

/-- The query of `cancel_all_orders`, as names and values. -/
def CancelAllQuery.pairs (q : CancelAllQuery) : List (String × String) :=
  [("underlying", q.underlying), ("expiration", q.expiration), ("side", q.side.map sideName),
    ("style", q.style)].filterMap fun f => f.2.map fun v => (f.1, v)

end Write
end OrderbookClient

section Read
variable {F : Type}

def readSide (j : Json F) : Option Side := do
  match ← asString j with
  | "buy" => some .buy
  | "sell" => some .sell
  | _ => none

def readStyle (j : Json F) : Option OptionStyle := do
  match ← asString j with
  | "call" => some .call
  | "put" => some .put
  | _ => none

/-- `ApiTimeInForce`. -/
def readTimeInForce (j : Json F) : Option OrderTimeInForce := do
  match ← asString j with
  | "GTC" => some .gtc
  | "IOC" => some .ioc
  | "FOK" => some .fok
  | "GTD" => some .gtd
  | _ => none

def readFloat [F64 F] : Json F → Option F
  | .float x => some x
  | .int n => some (F64.ofRat n)
  | _ => none

def readAddOrder (j : Json F) : Option AddOrderRequest := do
  let side ← required readSide "side" j
  let price ← required (asUnsigned 128) "price" j
  let quantity ← required (asUnsigned 64) "quantity" j
  let timeInForce ← optional readTimeInForce "time_in_force" j
  let expireAt ← optional asString "expire_at" j
  return ⟨side, price, quantity, timeInForce, expireAt⟩

def readMarketOrder (j : Json F) : Option MarketOrderRequest := do
  let side ← required readSide "side" j
  let quantity ← required (asUnsigned 64) "quantity" j
  return ⟨side, quantity⟩

def readModifyOrder (j : Json F) : Option ModifyOrderRequest := do
  let price ← optional (asUnsigned 128) "price" j
  let quantity ← optional (asUnsigned 64) "quantity" j
  return ⟨price, quantity⟩

def readBulkItem (j : Json F) : Option BulkOrderItem := do
  let underlying ← required asString "underlying" j
  let expiration ← required asString "expiration" j
  let strike ← required (asUnsigned 64) "strike" j
  let style ← required readStyle "style" j
  let side ← required readSide "side" j
  let price ← required (asUnsigned 128) "price" j
  let quantity ← required (asUnsigned 64) "quantity" j
  return ⟨underlying, expiration, strike, style, side, price, quantity⟩

def readBulkOrder (j : Json F) : Option BulkOrderRequest := do
  let orders ← required (asList readBulkItem) "orders" j
  let atomic ← defaulted asBool false "atomic" j
  return ⟨orders, atomic⟩

/-- `BulkCancelRequest`. -/
def readBulkCancel (j : Json F) : Option (List String) := required (asList asString) "order_ids" j

def readParameters [F64 F] (j : Json F) : Option (UpdateParametersRequest F) := do
  let spread ← optional readFloat "spread_multiplier" j
  let size ← optional readFloat "size_scalar" j
  let skew ← optional readFloat "directional_skew" j
  return ⟨spread, size, skew⟩

/-- The volume and the source are read too; they are for the database only. -/
def readPrice [F64 F] (j : Json F) : Option (InsertPriceRequest F) := do
  let symbol ← required asString "symbol" j
  let price ← required readFloat "price" j
  let bid ← optional readFloat "bid" j
  let ask ← optional readFloat "ask" j
  let _ ← optional (asSigned 64) "volume" j
  let _ ← optional asString "source" j
  return ⟨symbol, price, bid, ask⟩

/-- A name may come once at most. -/
def queryField (name : String) (pairs : List (String × String)) : Option (Option String) :=
  match pairs.filter fun f => f.1 = name with
  | [] => some none
  | [f] => some (some f.2)
  | _ => none

def readCancelAll (pairs : List (String × String)) : Option CancelAllQuery := do
  let underlying ← queryField "underlying" pairs
  let expiration ← queryField "expiration" pairs
  let side ← queryField "side" pairs
  let style ← queryField "style" pairs
  return ⟨underlying, expiration, side, style⟩

end Read

namespace OrderbookClient
variable {F : Type}

section Received

def AddOrderRequest.received (r : AddOrderRequest) : OptionChainBackend.AddOrderRequest :=
  ⟨r.side, r.price, r.quantity, none, none⟩

def MarketOrderRequest.received (r : MarketOrderRequest) : OptionChainBackend.MarketOrderRequest :=
  ⟨r.side, r.quantity⟩

def ModifyOrderRequest.received (r : ModifyOrderRequest) : OptionChainBackend.ModifyOrderRequest :=
  ⟨r.price.map Fin.val, r.quantity.map Fin.val⟩

def BulkOrderItem.received (i : BulkOrderItem) : OptionChainBackend.BulkOrderItem :=
  ⟨i.underlying, i.expiration, i.strike, i.style, i.side, i.price, i.quantity⟩

def BulkOrderRequest.received (r : BulkOrderRequest) : OptionChainBackend.BulkOrderRequest :=
  ⟨r.orders.map BulkOrderItem.received, r.atomic⟩

def CancelAllQuery.received (q : CancelAllQuery) : OptionChainBackend.CancelAllQuery :=
  ⟨q.underlying, q.expiration, q.side.map sideName, q.style⟩

def UpdateParametersRequest.received (carried : F → F) (r : UpdateParametersRequest F) :
    OptionChainBackend.UpdateParametersRequest F :=
  ⟨r.spreadMultiplier.map carried, r.sizeScalar.map carried, r.directionalSkew.map carried⟩

def InsertPriceRequest.received (carried : F → F) (r : InsertPriceRequest F) :
    OptionChainBackend.InsertPriceRequest F :=
  ⟨r.symbol, carried r.price, r.bid.map carried, r.ask.map carried⟩

/-- A number that is not finite has no place in JSON. -/
def UpdateParametersRequest.Finite [F64 F] (r : UpdateParametersRequest F) : Prop :=
  ∀ o ∈ [r.spreadMultiplier, r.sizeScalar, r.directionalSkew], ∀ x ∈ o, F64.isFinite x = true

def InsertPriceRequest.Finite [F64 F] (r : InsertPriceRequest F) : Prop :=
  F64.isFinite r.price = true ∧ ∀ o ∈ [r.bid, r.ask], ∀ x ∈ o, F64.isFinite x = true

end Received

section Values

@[simp] theorem readSide_write (s : Side) : readSide (.str (sideName s) : Json F) = some s := by
  cases s <;> rfl

@[simp] theorem readStyle_write (s : OptionStyle) :
    readStyle (.str (styleWireName s) : Json F) = some s := by
  cases s <;> rfl

@[simp] theorem asUnsigned_write {w : ℕ} (n : Fin (2 ^ w)) :
    asUnsigned w (writeUnsigned n : Json F) = some n.val :=
  asUnsigned_int n.isLt

@[simp] theorem asSigned_write (v : I64) : asSigned 64 (.int v.val : Json F) = some v.val :=
  if_pos v.property

theorem asString_str (s : String) : asString (.str s : Json F) = some s := rfl

theorem asUnsigned_write_map {w : ℕ} (o : Option (Fin (2 ^ w))) :
    ∀ n ∈ o, asUnsigned w (writeUnsigned n : Json F) = some n.val := fun n _ => asUnsigned_write n

theorem writeUnsigned_ne_null {w : ℕ} (o : Option (Fin (2 ^ w))) :
    ∀ n ∈ o, (writeUnsigned n : Json F) ≠ .null := by
  intro n _ h
  cases h

end Values

theorem readFloat_write [F64 F] (carried : F → F) {x : F} (h : F64.isFinite x = true) :
    readFloat (writeFloat carried x) = some (carried x) := by
  simp [writeFloat, readFloat, h]

theorem writeFloat_ne_null [F64 F] (carried : F → F) {x : F} (h : F64.isFinite x = true) :
    writeFloat carried x ≠ .null := by
  simp [writeFloat, h]

section Bodies

theorem readAddOrder_json (r : AddOrderRequest) :
    readAddOrder (r.json : Json F) = some r.received := by
  unfold readAddOrder AddOrderRequest.json
  rw [required_record (by simp) readSide rfl, readSide_write,
    required_record (by simp) (asUnsigned 128) rfl, asUnsigned_write,
    required_record (by simp) (asUnsigned 64) rfl, asUnsigned_write,
    optional_absent (by simp) readTimeInForce rfl, optional_absent (by simp) asString rfl]
  rfl

theorem readMarketOrder_json (r : MarketOrderRequest) :
    readMarketOrder (r.json : Json F) = some r.received := by
  unfold readMarketOrder MarketOrderRequest.json
  rw [required_record (by simp) readSide rfl, readSide_write,
    required_record (by simp) (asUnsigned 64) rfl, asUnsigned_write]
  rfl

theorem readModifyOrder_json (r : ModifyOrderRequest) :
    readModifyOrder (r.json : Json F) = some r.received := by
  unfold readModifyOrder ModifyOrderRequest.json
  rw [optional_record (by simp) rfl (asUnsigned_write_map r.price) (writeUnsigned_ne_null _),
    optional_record (by simp) rfl (asUnsigned_write_map r.quantity) (writeUnsigned_ne_null _)]
  rfl

theorem readBulkItem_json (i : BulkOrderItem) :
    readBulkItem (i.json : Json F) = some i.received := by
  unfold readBulkItem BulkOrderItem.json
  rw [required_record (by simp) asString rfl, required_record (by simp) asString rfl,
    required_record (by simp) (asUnsigned 64) rfl, asUnsigned_write,
    required_record (by simp) readStyle rfl, readStyle_write,
    required_record (by simp) readSide rfl, readSide_write,
    required_record (by simp) (asUnsigned 128) rfl, asUnsigned_write,
    required_record (by simp) (asUnsigned 64) rfl, asUnsigned_write]
  rfl

theorem readBulkOrder_json (r : BulkOrderRequest) :
    readBulkOrder (r.json : Json F) = some r.received := by
  unfold readBulkOrder BulkOrderRequest.json
  rw [required_record (by simp) (asList readBulkItem) rfl,
    asList_map fun i _ => readBulkItem_json i, defaulted_record (by simp) asBool false rfl]
  rfl

theorem readBulkCancel_json (orderIds : List String) :
    readBulkCancel (bulkCancelJson orderIds : Json F) = some orderIds := by
  unfold readBulkCancel bulkCancelJson
  have hids : asList asString (.arr (orderIds.map .str) : Json F) = some (orderIds.map id) :=
    asList_map fun _ _ => rfl
  rw [required_record (by simp) (asList asString) rfl, hids, List.map_id]

/-- Each name is written once at most, with the value it has. -/
theorem readCancelAll_pairs (q : CancelAllQuery) : readCancelAll q.pairs = some q.received := by
  obtain ⟨underlying, expiration, side, style⟩ := q
  cases underlying <;> cases expiration <;> cases side <;> cases style <;> rfl

end Bodies

section Floats
variable [F64 F] (carried : F → F)

/-- A finite number arrives as it is carried. -/
theorem optional_float {fields : List (String × Option (Json F))}
    (hn : (fields.map Prod.fst).Nodup) {name : String} {o : Option F}
    (h : fields.lookup name = some (o.map (writeFloat carried)))
    (ho : ∀ x ∈ o, F64.isFinite x = true) :
    optional readFloat name (record fields) = some (o.map carried) :=
  optional_record hn h (fun x hx => readFloat_write carried (ho x hx))
    fun x hx => writeFloat_ne_null carried (ho x hx)

theorem readParameters_json {r : UpdateParametersRequest F} (h : r.Finite) :
    readParameters (r.json carried) = some (r.received carried) := by
  unfold readParameters UpdateParametersRequest.json
  rw [optional_float carried (by simp) rfl (h _ (by simp)),
    optional_float carried (by simp) rfl (h _ (by simp)),
    optional_float carried (by simp) rfl (h _ (by simp))]
  rfl

theorem readPrice_json {r : InsertPriceRequest F} (h : r.Finite) :
    readPrice (r.json carried) = some (r.received carried) := by
  unfold readPrice InsertPriceRequest.json
  rw [required_record (by simp) asString rfl, required_record (by simp) readFloat rfl,
    readFloat_write carried h.1, optional_float carried (by simp) rfl (h.2 _ (by simp)),
    optional_float carried (by simp) rfl (h.2 _ (by simp)),
    optional_record (by simp) rfl (fun v _ => asSigned_write v) (by simp),
    optional_record (by simp) rfl (fun source _ => asString_str source) (by simp)]
  rfl

end Floats
end OrderbookClient
end OptionChainBackend
