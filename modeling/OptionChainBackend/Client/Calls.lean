import OptionChainBackend.Api.BarQuery
import OptionChainBackend.Api.Executions
import OptionChainBackend.Api.OrderPages
import OptionChainBackend.Auth.Access
import OptionChainBackend.Client.Requests
import OptionChainBackend.Foundation.Percent

/-!
The calls of the client, and what becomes of them at the server. How a text is made one segment of a
URL, how a query is written, and how both are read again is not the repository's: it is assumed
to fit together.
-/
namespace OptionChainBackend
namespace OrderbookClient
open Foundation Foundation.Routing Foundation.Json Upstream MarketMaker Auth

structure OptionPath where
  underlying : String
  expiration : String
  strike : U64
  style : String

structure TokenRequest where
  secret : String
  permissions : List Permission
  ttlSecs : Option U64

structure ExecutionsQuery where
  fromDate : Option String
  toDate : Option String
  underlying : Option String
  symbol : Option String
  side : Option Side
  limit : U64
  offset : U64

structure OrderListQuery where
  underlying : Option String
  status : Option OrderStatus
  side : Option Side
  limit : U64
  offset : U64

structure OhlcQuery where
  interval : Option String
  fromTs : Option U64
  toTs : Option U64
  limit : Option U64

/-- The methods of `OrderbookClient` that send a request, and `ws_url`. -/
inductive Call (F : Type) where
  | healthCheck
  | wsHandler
  | getGlobalStats
  | listUnderlyings
  | createUnderlying (symbol : String)
  | getUnderlying (symbol : String)
  | deleteUnderlying (symbol : String)
  | listExpirations (underlying : String)
  | createExpiration (underlying expiration : String)
  | getExpiration (underlying expiration : String)
  | listStrikes (underlying expiration : String)
  | createStrike (underlying expiration : String) (strike : U64)
  | getStrike (underlying expiration : String) (strike : U64)
  | getOptionBook (path : OptionPath)
  | getOptionQuote (path : OptionPath)
  | addOrder (path : OptionPath) (request : AddOrderRequest)
  | submitMarketOrder (path : OptionPath) (request : MarketOrderRequest)
  | cancelOrder (path : OptionPath) (orderId : String)
  | getOptionSnapshot (path : OptionPath) (depth : Option String)
  | getControls
  | killSwitch
  | enableQuoting
  | updateParameters (request : UpdateParametersRequest F)
  | listInstruments
  | toggleInstrument (symbol : String)
  | insertPrice (request : InsertPriceRequest F)
  | getLatestPrice (symbol : String)
  | getAllPrices
  | issueToken (request : TokenRequest)
  | listExecutions (query : Option ExecutionsQuery)
  | getExecution (executionId : String)
  | listPositions (underlying : Option String)
  | getPosition (symbol : String)
  | createSnapshot
  | listSnapshots
  | getSnapshot (snapshotId : String)
  | restoreSnapshot (snapshotId : String)
  | listOrders (query : Option OrderListQuery)
  | getOrderStatus (orderId : String)
  | modifyOrder (path : OptionPath) (orderId : String) (request : ModifyOrderRequest)
  | bulkSubmitOrders (request : BulkOrderRequest)
  | bulkCancelOrders (orderIds : List String)
  | cancelAllOrders (query : Option CancelAllQuery)
  | getOptionGreeks (path : OptionPath)
  | getLastTrade (path : OptionPath)
  | getOhlc (path : OptionPath) (query : Option OhlcQuery)
  | getOrderbookMetrics (path : OptionPath)
  | getVolatilitySurface (underlying : String)
  | getOptionChain (underlying expiration : String)

section Urls
open Word

/-- The handler a method is named after. -/
def Call.name {F : Type} : Call F → Handler
  | .healthCheck => .healthCheck
  | .wsHandler => .wsHandler
  | .getGlobalStats => .getGlobalStats
  | .listUnderlyings => .listUnderlyings
  | .createUnderlying _ => .createUnderlying
  | .getUnderlying _ => .getUnderlying
  | .deleteUnderlying _ => .deleteUnderlying
  | .listExpirations _ => .listExpirations
  | .createExpiration .. => .createExpiration
  | .getExpiration .. => .getExpiration
  | .listStrikes .. => .listStrikes
  | .createStrike .. => .createStrike
  | .getStrike .. => .getStrike
  | .getOptionBook _ => .getOptionBook
  | .getOptionQuote _ => .getOptionQuote
  | .addOrder .. => .addOrder
  | .submitMarketOrder .. => .submitMarketOrder
  | .cancelOrder .. => .cancelOrder
  | .getOptionSnapshot .. => .getOptionSnapshot
  | .getControls => .getControls
  | .killSwitch => .killSwitch
  | .enableQuoting => .enableQuoting
  | .updateParameters _ => .updateParameters
  | .listInstruments => .listInstruments
  | .toggleInstrument _ => .toggleInstrument
  | .insertPrice _ => .insertPrice
  | .getLatestPrice _ => .getLatestPrice
  | .getAllPrices => .getAllPrices
  | .issueToken _ => .issueToken
  | .listExecutions _ => .listExecutions
  | .getExecution _ => .getExecution
  | .listPositions _ => .listPositions
  | .getPosition _ => .getPosition
  | .createSnapshot => .createSnapshot
  | .listSnapshots => .listSnapshots
  | .getSnapshot _ => .getSnapshot
  | .restoreSnapshot _ => .restoreSnapshot
  | .listOrders _ => .listOrders
  | .getOrderStatus _ => .getOrderStatus
  | .modifyOrder .. => .modifyOrder
  | .bulkSubmitOrders _ => .bulkSubmitOrders
  | .bulkCancelOrders _ => .bulkCancelOrders
  | .cancelAllOrders _ => .cancelAllOrders
  | .getOptionGreeks _ => .getOptionGreeks
  | .getLastTrade _ => .getLastTrade
  | .getOhlc .. => .getOhlc
  | .getOrderbookMetrics _ => .getOrderbookMetrics
  | .getVolatilitySurface _ => .getVolatilitySurface
  | .getOptionChain .. => .getOptionChain

/-- The URLs of the client, after the base: `none` is an argument. -/
def template : Handler → Method × List Piece
  | .healthCheck => (.get, [some root, some health])
  | .wsHandler => (.get, [some root, some ws])
  | .getGlobalStats => (.get, v1Path [some stats])
  | .listUnderlyings => (.get, v1Path [some underlyings])
  | .createUnderlying => (.post, v1Path [some underlyings, none])
  | .getUnderlying => (.get, v1Path [some underlyings, none])
  | .deleteUnderlying => (.delete, v1Path [some underlyings, none])
  | .listExpirations => (.get, v1Path [some underlyings, none, some expirations])
  | .createExpiration => (.post, v1Path [some underlyings, none, some expirations, none])
  | .getExpiration => (.get, v1Path [some underlyings, none, some expirations, none])
  | .listStrikes => (.get, v1Path [some underlyings, none, some expirations, none, some strikes])
  | .createStrike =>
    (.post, v1Path [some underlyings, none, some expirations, none, some strikes, none])
  | .getStrike =>
    (.get, v1Path [some underlyings, none, some expirations, none, some strikes, none])
  | .getOptionBook => (.get, optionBase [])
  | .getOptionQuote => (.get, optionBase [some quote])
  | .addOrder => (.post, optionBase [some orders])
  | .submitMarketOrder => (.post, optionBase [some orders, some market])
  | .cancelOrder => (.delete, optionBase [some orders, none])
  | .getOptionSnapshot => (.get, optionBase [some snapshot])
  | .getControls => (.get, v1Path [some controls])
  | .killSwitch => (.post, v1Path [some controls, some Word.killSwitch])
  | .enableQuoting => (.post, v1Path [some controls, some enable])
  | .updateParameters => (.post, v1Path [some controls, some parameters])
  | .listInstruments => (.get, v1Path [some controls, some instruments])
  | .toggleInstrument => (.post, v1Path [some controls, some instrument, none, some toggle])
  | .insertPrice => (.post, v1Path [some prices])
  | .getLatestPrice => (.get, v1Path [some prices, none])
  | .getAllPrices => (.get, v1Path [some prices])
  | .issueToken => (.post, v1Path [some auth, some token])
  | .listExecutions => (.get, v1Path [some executions])
  | .getExecution => (.get, v1Path [some executions, none])
  | .listPositions => (.get, v1Path [some positions])
  | .getPosition => (.get, v1Path [some positions, none])
  | .createSnapshot => (.post, v1Path [some admin, some snapshot])
  | .listSnapshots => (.get, v1Path [some admin, some snapshots])
  | .getSnapshot => (.get, v1Path [some admin, some snapshots, none])
  | .restoreSnapshot => (.post, v1Path [some admin, some snapshots, none, some restore])
  | .listOrders => (.get, v1Path [some orders])
  | .getOrderStatus => (.get, v1Path [some orders, none])
  | .modifyOrder => (.patch, optionBase [some orders, none])
  | .bulkSubmitOrders => (.post, v1Path [some orders, some bulk])
  | .bulkCancelOrders => (.delete, v1Path [some orders, some bulk])
  | .cancelAllOrders => (.delete, v1Path [some orders, some cancelAll])
  | .getOptionGreeks => (.get, optionBase [some greeks])
  | .getLastTrade => (.get, optionBase [some lastTrade])
  | .getOhlc => (.get, optionBase [some ohlc])
  | .getOrderbookMetrics => (.get, optionBase [some metrics])
  | .getVolatilitySurface => (.get, v1Path [some underlyings, none, some volatilitySurface])
  | .getOptionChain =>
    (.get, v1Path [some underlyings, none, some expirations, none, some chain])
where
  /-- `option_base`. -/
  optionBase (rest : List Piece) : List Piece :=
    v1Path ([some underlyings, none, some expirations, none, some strikes, none, some options,
      none] ++ rest)

/-- An argument that goes into the path: a text is encoded, a number is not. -/
inductive Arg where
  | text (s : String)
  | number (n : U64)

def Arg.raw : Arg → String
  | .text s => s
  | .number n => toString n.val

def Arg.sent (encode : String → String) : Arg → String
  | .text s => encode s
  | .number n => toString n.val

def OptionPath.args (p : OptionPath) : List Arg :=
  [.text p.underlying, .text p.expiration, .number p.strike, .text p.style]

def Call.args {F : Type} : Call F → List Arg
  | .createUnderlying symbol | .getUnderlying symbol | .deleteUnderlying symbol
  | .toggleInstrument symbol | .getLatestPrice symbol | .getPosition symbol => [.text symbol]
  | .listExpirations underlying | .getVolatilitySurface underlying => [.text underlying]
  | .createExpiration underlying expiration | .getExpiration underlying expiration
  | .listStrikes underlying expiration | .getOptionChain underlying expiration =>
    [.text underlying, .text expiration]
  | .createStrike underlying expiration strike | .getStrike underlying expiration strike =>
    [.text underlying, .text expiration, .number strike]
  | .getOptionBook p | .getOptionQuote p | .addOrder p _ | .submitMarketOrder p _
  | .getOptionSnapshot p _ | .getOptionGreeks p | .getLastTrade p | .getOhlc p _
  | .getOrderbookMetrics p => p.args
  | .cancelOrder p orderId | .modifyOrder p orderId _ => p.args ++ [.text orderId]
  | .getExecution id | .getSnapshot id | .restoreSnapshot id | .getOrderStatus id => [.text id]
  | _ => []

/-- A URL with its arguments put in. -/
def fill : List Piece → List String → List String
  | [], _ => []
  | some w :: ps, as => w.text :: fill ps as
  | none :: ps, [] => "" :: fill ps []
  | none :: ps, a :: as => a :: fill ps as

/-- The path of the URL. -/
def Call.path {F : Type} (encode : String → String) (c : Call F) : String :=
  "/".intercalate (fill (template c.name).2 (c.args.map (Arg.sent encode)))

end Urls

section Queries

def statusName : OrderStatus → String
  | .pending => "pending"
  | .active => "active"
  | .partialFill => "partial"
  | .filled => "filled"
  | .canceled => "canceled"

def permissionWireName : Permission → String
  | .read => "read"
  | .trade => "trade"
  | .admin => "admin"

/-- The names and values of a query, without those that are not given. -/
def present (fields : List (String × Option String)) : List (String × String) :=
  fields.filterMap fun f => f.2.map fun v => (f.1, v)

def shown {w : ℕ} (n : Fin (2 ^ w)) : String := toString n.val

def ExecutionsQuery.pairs (q : ExecutionsQuery) : List (String × String) :=
  present [("from", q.fromDate), ("to", q.toDate), ("underlying", q.underlying),
    ("symbol", q.symbol), ("side", q.side.map sideName), ("limit", some (shown q.limit)),
    ("offset", some (shown q.offset))]

def OrderListQuery.pairs (q : OrderListQuery) : List (String × String) :=
  present [("underlying", q.underlying), ("status", q.status.map statusName),
    ("side", q.side.map sideName), ("limit", some (shown q.limit)),
    ("offset", some (shown q.offset))]

def OhlcQuery.pairs (q : OhlcQuery) : List (String × String) :=
  present [("interval", q.interval), ("from", q.fromTs.map shown), ("to", q.toTs.map shown),
    ("limit", q.limit.map shown)]

/-- The query of the URL; the depth of a snapshot is put in as it is. -/
def Call.query {F : Type} (render : List (String × String) → String) : Call F → String
  | .getOptionSnapshot _ (some depth) => "depth=" ++ depth
  | .listExecutions (some q) => render q.pairs
  | .listPositions underlying => render (present [("underlying", underlying)])
  | .listOrders (some q) => render q.pairs
  | .cancelAllOrders (some q) => render q.pairs
  | .getOhlc _ (some q) => render q.pairs
  | _ => ""

def Call.url {F : Type} (encode : String → String) (render : List (String × String) → String)
    (c : Call F) : String :=
  if c.query render = "" then c.path encode else c.path encode ++ "?" ++ c.query render

end Queries

section Server
variable {B F : Type} [Upstream B] [F64 F] (display : F → String) (carried : F → F)
  (encode : String → String) (decode : String → Option String)
  (render : List (String × String) → String) (parse : String → Option (List (String × String)))

/-- The path and the query of a URL; what follows a number sign is not sent. -/
def target (url : String) : String × String :=
  let sent := url.toList.takeWhile (· ≠ '#')
  (String.ofList (sent.takeWhile (· ≠ '?')), String.ofList ((sent.dropWhile (· ≠ '?')).drop 1))

def Call.body : Call F → Json F
  | .addOrder _ r => r.json
  | .submitMarketOrder _ r => r.json
  | .modifyOrder _ _ r => r.json
  | .bulkSubmitOrders r => r.json
  | .bulkCancelOrders ids => bulkCancelJson ids
  | .updateParameters r => r.json carried
  | .insertPrice r => r.json carried
  | .issueToken r => record [("secret", some (.str r.secret)),
      ("permissions", some (.arr (r.permissions.map fun p => .str (permissionWireName p)))),
      ("ttl_secs", r.ttlSecs.map writeUnsigned)]
  | _ => .null

/-- The request a call sends; `snapshotId` is drawn by the server. -/
def Call.request (snapshotId : String) (c : Call F) : HttpRequest (Json F) where
  method := (template c.name).1
  path := (target (c.url encode render)).1
  query := (target (c.url encode render)).2
  body := c.body carried
  snapshotId := snapshotId

/-- The extractors of the handlers. -/
def extractors : Extractors (Json F) F where
  decode := decode
  addOrder := readAddOrder
  marketOrder := readMarketOrder
  modifyOrder := readModifyOrder
  bulkOrder := readBulkOrder
  bulkCancel := readBulkCancel
  cancelAll := fun query => (parse query).bind readCancelAll
  parameters := readParameters
  price := readPrice

def OptionPath.received (p : OptionPath) : OptionChainBackend.OptionPath :=
  ⟨p.underlying, p.expiration, p.strike, p.style⟩

/-- What a call is for, as a change of the server's state. -/
def Call.effect (snapshotId : String) : Call F → AppState B F → AppState B F
  | .createUnderlying u, s => s.step (.createUnderlying u)
  | .deleteUnderlying u, s => s.step (.deleteUnderlying u)
  | .createExpiration u e, s => s.step (.createExpiration u e)
  | .createStrike u e strike, s => s.step (.createStrike u e strike)
  | .addOrder p r, s => s.step (.addOrder p.received r.received)
  | .submitMarketOrder p r, s => s.step (.submitMarketOrder p.received r.received)
  | .cancelOrder p id, s => s.step (.cancelOrder p.received id)
  | .modifyOrder p id r, s => s.step (.modifyOrder p.received id r.received)
  | .bulkSubmitOrders r, s => s.step (.bulkSubmitOrders r.received)
  | .bulkCancelOrders ids, s => s.step (.bulkCancelOrders ids)
  | .cancelAllOrders q, s =>
    s.step (.cancelAllOrders (q.elim ⟨none, none, none, none⟩ CancelAllQuery.received))
  | .createSnapshot, s => s.step (.createSnapshot snapshotId)
  | .restoreSnapshot id, s => s.step (.restoreSnapshot id)
  | .killSwitch, s => s.killSwitch.2
  | .enableQuoting, s => s.enableQuoting.2
  | .updateParameters r, s => (s.updateParameters display (r.received carried)).2
  | .toggleInstrument symbol, s => (s.toggleInstrument symbol).2
  | .insertPrice r, s => (s.insertPrice display (r.received carried)).2
  | _, s => s

end Server
end OrderbookClient
end OptionChainBackend
