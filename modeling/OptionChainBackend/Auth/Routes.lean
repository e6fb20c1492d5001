import OptionChainBackend.Feed.Commands
import OptionChainBackend.Foundation.Routing

/-!
The HTTP surface: the route table of `create_router`, the permission check of the middleware, and
what each handler does to the state. Bodies and queries are read by `Extractors`, whatever these
are.
-/
namespace OptionChainBackend
namespace Auth
open Foundation Foundation.Routing Upstream MarketMaker

inductive Method where
  | get | head | options | post | put | delete | patch | trace | connect
  | extension (name : String)
  deriving DecidableEq, Repr

inductive Handler where
  | healthCheck | wsHandler | getGlobalStats | issueToken
  | getControls | killSwitch | enableQuoting | updateParameters | listInstruments
  | toggleInstrument
  | getAllPrices | insertPrice | getLatestPrice
  | listUnderlyings | createUnderlying | getUnderlying | deleteUnderlying
  | listExpirations | createExpiration | getExpiration | getVolatilitySurface | getOptionChain
  | listStrikes | createStrike | getStrike
  | getOptionBook | addOrder | submitMarketOrder | cancelOrder | modifyOrder | getOptionQuote
  | getOptionGreeks | getOptionSnapshot | getLastTrade | getOhlc | getOrderbookMetrics
  | listOrders | getOrderStatus | bulkSubmitOrders | bulkCancelOrders | cancelAllOrders
  | listPositions | getPosition | listExecutions | getExecution
  | createSnapshot | listSnapshots | getSnapshot | restoreSnapshot
  deriving DecidableEq, Repr

/-- The fixed pieces of the routes; `root` is the empty piece before the first slash. -/
inductive Word where
  | root | api | v1 | health | ws | stats | auth | token
  | controls | killSwitch | enable | parameters | instruments | instrument | toggle
  | prices | underlyings | expirations | volatilitySurface | chain | strikes | options
  | orders | market | quote | greeks | snapshot | lastTrade | ohlc | metrics
  | bulk | cancelAll | positions | executions | admin | snapshots | restore
  deriving DecidableEq, Repr

def Word.text : Word → String
  | .root => ""
  | .api => "api"
  | .v1 => "v1"
  | .health => "health"
  | .ws => "ws"
  | .stats => "stats"
  | .auth => "auth"
  | .token => "token"
  | .controls => "controls"
  | .killSwitch => "kill-switch"
  | .enable => "enable"
  | .parameters => "parameters"
  | .instruments => "instruments"
  | .instrument => "instrument"
  | .toggle => "toggle"
  | .prices => "prices"
  | .underlyings => "underlyings"
  | .expirations => "expirations"
  | .volatilitySurface => "volatility-surface"
  | .chain => "chain"
  | .strikes => "strikes"
  | .options => "options"
  | .orders => "orders"
  | .market => "market"
  | .quote => "quote"
  | .greeks => "greeks"
  | .snapshot => "snapshot"
  | .lastTrade => "last-trade"
  | .ohlc => "ohlc"
  | .metrics => "metrics"
  | .bulk => "bulk"
  | .cancelAll => "cancel-all"
  | .positions => "positions"
  | .executions => "executions"
  | .admin => "admin"
  | .snapshots => "snapshots"
  | .restore => "restore"

/-- A piece of a route: a word, or `none` for a parameter. -/
abbrev Piece := Option Word

structure Route where
  words : List Piece
  methods : List (Method × Handler)
  deriving DecidableEq, Repr

def pieceSegment : Piece → Segment Char
  | some w => .static w.text.toList
  | none => .param

def Route.pattern (r : Route) : Pattern Char := r.words.map pieceSegment

section Table
open Word

def v1Path (rest : List Piece) : List Piece := some root :: some api :: some v1 :: rest

/-- `/api/v1/underlyings/{underlying}`, and what follows. -/
def underlyingPath (rest : List Piece) : List Piece := v1Path (some underlyings :: none :: rest)

def expirationPath (rest : List Piece) : List Piece :=
  underlyingPath (some expirations :: none :: rest)

def strikePath (rest : List Piece) : List Piece := expirationPath (some strikes :: none :: rest)

def optionPath (rest : List Piece) : List Piece := strikePath (some options :: none :: rest)

/-- `create_router`. -/
def routes : List Route :=
  [⟨[some root, some health], [(.get, .healthCheck)]⟩,
    ⟨[some root, some ws], [(.get, .wsHandler)]⟩,
    ⟨v1Path [some stats], [(.get, .getGlobalStats)]⟩,
    ⟨v1Path [some auth, some token], [(.post, .issueToken)]⟩,
    ⟨v1Path [some controls], [(.get, .getControls)]⟩,
    ⟨v1Path [some controls, some killSwitch], [(.post, .killSwitch)]⟩,
    ⟨v1Path [some controls, some enable], [(.post, .enableQuoting)]⟩,
    ⟨v1Path [some controls, some parameters], [(.post, .updateParameters)]⟩,
    ⟨v1Path [some controls, some instruments], [(.get, .listInstruments)]⟩,
    ⟨v1Path [some controls, some instrument, none, some toggle], [(.post, .toggleInstrument)]⟩,
    ⟨v1Path [some prices], [(.get, .getAllPrices), (.post, .insertPrice)]⟩,
    ⟨v1Path [some prices, none], [(.get, .getLatestPrice)]⟩,
    ⟨v1Path [some underlyings], [(.get, .listUnderlyings)]⟩,
    ⟨underlyingPath [],
      [(.post, .createUnderlying), (.get, .getUnderlying), (.delete, .deleteUnderlying)]⟩,
    ⟨underlyingPath [some expirations], [(.get, .listExpirations)]⟩,
    ⟨expirationPath [], [(.post, .createExpiration), (.get, .getExpiration)]⟩,
    ⟨underlyingPath [some volatilitySurface], [(.get, .getVolatilitySurface)]⟩,
    ⟨expirationPath [some chain], [(.get, .getOptionChain)]⟩,
    ⟨expirationPath [some strikes], [(.get, .listStrikes)]⟩,
    ⟨strikePath [], [(.post, .createStrike), (.get, .getStrike)]⟩,
    ⟨optionPath [], [(.get, .getOptionBook)]⟩,
    ⟨optionPath [some orders], [(.post, .addOrder)]⟩,
    ⟨optionPath [some orders, some market], [(.post, .submitMarketOrder)]⟩,
    ⟨optionPath [some orders, none], [(.delete, .cancelOrder), (.patch, .modifyOrder)]⟩,
    ⟨optionPath [some quote], [(.get, .getOptionQuote)]⟩,
    ⟨optionPath [some greeks], [(.get, .getOptionGreeks)]⟩,
    ⟨optionPath [some snapshot], [(.get, .getOptionSnapshot)]⟩,
    ⟨optionPath [some lastTrade], [(.get, .getLastTrade)]⟩,
    ⟨optionPath [some ohlc], [(.get, .getOhlc)]⟩,
    ⟨optionPath [some metrics], [(.get, .getOrderbookMetrics)]⟩,
    ⟨v1Path [some orders], [(.get, .listOrders)]⟩,
    ⟨v1Path [some orders, none], [(.get, .getOrderStatus)]⟩,
    ⟨v1Path [some orders, some bulk], [(.post, .bulkSubmitOrders), (.delete, .bulkCancelOrders)]⟩,
    ⟨v1Path [some orders, some cancelAll], [(.delete, .cancelAllOrders)]⟩,
    ⟨v1Path [some positions], [(.get, .listPositions)]⟩,
    ⟨v1Path [some positions, none], [(.get, .getPosition)]⟩,
    ⟨v1Path [some executions], [(.get, .listExecutions)]⟩,
    ⟨v1Path [some executions, none], [(.get, .getExecution)]⟩,
    ⟨v1Path [some admin, some snapshot], [(.post, .createSnapshot)]⟩,
    ⟨v1Path [some admin, some snapshots], [(.get, .listSnapshots)]⟩,
    ⟨v1Path [some admin, some snapshots, none], [(.get, .getSnapshot)]⟩,
    ⟨v1Path [some admin, some snapshots, none, some restore], [(.post, .restoreSnapshot)]⟩]

/-- A GET handler also answers HEAD. -/
def Route.handler (r : Route) (m : Method) : Option Handler :=
  match r.methods.lookup m with
  | some h => some h
  | none => if m = .head then r.methods.lookup .get else none

def pieces (path : String) : List (List Char) := path.toList.splitOn '/'

def routeOf (path : String) : Option Route :=
  find (pieces path) (routes.map fun r => (r.pattern, r))

end Table

section Middleware

def defaultRateLimit : ℕ := 100
def tokenIssueRateLimit : ℕ := 10
def healthPath : String := "/health"
def tokenPath : String := "/api/v1/auth/token"

/-- `str::starts_with`. -/
def startsWith (path start : String) : Bool := start.toList.isPrefixOf path.toList

/-- `trim_matches('/')`. -/
def trimSlashes (path : List Char) : List Char :=
  (path.dropWhile (· = '/')).rdropWhile (· = '/')

def isUnderlyingRoot (path : String) : Bool :=
  match (trimSlashes path.toList).splitOn '/' with
  | [api, v1, underlyings, u] =>
    api = "api".toList && v1 = "v1".toList && underlyings = "underlyings".toList && u ≠ []
  | _ => false

def requiredPermission (m : Method) (path : String) : Permission :=
  if startsWith path "/api/v1/controls" || startsWith path "/api/v1/admin" then .admin
  else if m = .delete && isUnderlyingRoot path then .admin
  else match m with
    | .get | .head | .options => .read
    | _ => .trade

def permissionName : Permission → String
  | .read => "Read"
  | .trade => "Trade"
  | .admin => "Admin"

def rateLimited (limit nowSecs : ℕ) (d : RateLimitDecision) : ApiError :=
  .rateLimitExceeded limit d.remaining d.resetSecs (d.resetSecs - nowSecs)

/-- What the middleware learns of a request: the token's claims, and what the limiter says of the
subject and of the peer's address. -/
structure Credentials where
  claims : Except ApiError Claims
  subject : RateLimitDecision
  peer : Except ApiError RateLimitDecision
  nowSecs : ℕ

/-- `auth_middleware`, up to the call of the handler. -/
def authMiddleware (k : Credentials) (m : Method) (path : String) : Except ApiError Unit :=
  if path = healthPath then .ok ()
  else if m = .post ∧ path = tokenPath then do
    let decision ← k.peer
    if decision.allowed then .ok ()
    else .error (rateLimited tokenIssueRateLimit k.nowSecs decision)
  else do
    let claims ← k.claims
    if !k.subject.allowed then .error (rateLimited defaultRateLimit k.nowSecs k.subject)
    else if claims.hasPermission (requiredPermission m path) then .ok ()
    else .error (.forbidden
      ("requires " ++ permissionName (requiredPermission m path) ++ " permission"))

end Middleware

/-- How path parameters, bodies and queries are read. -/
structure Extractors (Body F : Type) where
  decode : String → Option String
  addOrder : Body → Option AddOrderRequest
  marketOrder : Body → Option MarketOrderRequest
  modifyOrder : Body → Option ModifyOrderRequest
  bulkOrder : Body → Option BulkOrderRequest
  bulkCancel : Body → Option (List String)
  cancelAll : String → Option CancelAllQuery
  parameters : Body → Option (UpdateParametersRequest F)
  price : Body → Option (InsertPriceRequest F)

/-- `snapshotId` is the id drawn if the request creates a snapshot. -/
structure HttpRequest (Body : Type) where
  method : Method
  path : String
  query : String
  body : Body
  snapshotId : String

section Handlers
variable {B F Body : Type} [Upstream B] [F64 F] (display : F → String) (ex : Extractors Body F)

/-- The book a path names, and what follows its style. -/
def bookParams : List String → Option (OptionPath × List String)
  | u :: e :: k :: style :: rest =>
    (parseU64 k.toList).map fun strike => (⟨u, e, strike, style⟩, rest)
  | _ => none

def expirationParams : List String → Option (String × String)
  | [u, e] => some (u, e)
  | _ => none

def strikeParams : List String → Option (String × String × ℕ)
  | [u, e, k] => (parseU64 k.toList).map fun strike => (u, e, strike)
  | _ => none

/-- The change a handler is called for: `none` when it only reads, or when the request cannot be
read. -/
def Handler.change (h : Handler) (params : List String) (req : HttpRequest Body) :
    Option (AppState B F → AppState B F) :=
  match h with
  | .killSwitch => some fun s => s.killSwitch.2
  | .enableQuoting => some fun s => s.enableQuoting.2
  | .updateParameters => (ex.parameters req.body).map fun b s => (s.updateParameters display b).2
  | .toggleInstrument => params.head?.map fun symbol s => (s.toggleInstrument symbol).2
  | .insertPrice => (ex.price req.body).map fun b s => (s.insertPrice display b).2
  | .createUnderlying => params.head?.map fun u s => s.step (.createUnderlying u)
  | .deleteUnderlying => params.head?.map fun u s => s.step (.deleteUnderlying u)
  | .createExpiration =>
    (expirationParams params).map fun (u, e) s => s.step (.createExpiration u e)
  | .createStrike =>
    (strikeParams params).map fun (u, e, strike) s => s.step (.createStrike u e strike)
  | .addOrder => do
    let (p, _) ← bookParams params
    let body ← ex.addOrder req.body
    return fun s => s.step (.addOrder p body)
  | .submitMarketOrder => do
    let (p, _) ← bookParams params
    let body ← ex.marketOrder req.body
    return fun s => s.step (.submitMarketOrder p body)
  | .cancelOrder => do
    let (p, rest) ← bookParams params
    let orderId ← rest.head?
    return fun s => s.step (.cancelOrder p orderId)
  | .modifyOrder => do
    let (p, rest) ← bookParams params
    let orderId ← rest.head?
    let body ← ex.modifyOrder req.body
    return fun s => s.step (.modifyOrder p orderId body)
  | .bulkSubmitOrders => (ex.bulkOrder req.body).map fun b s => s.step (.bulkSubmitOrders b)
  | .bulkCancelOrders => (ex.bulkCancel req.body).map fun ids s => s.step (.bulkCancelOrders ids)
  | .cancelAllOrders => (ex.cancelAll req.query).map fun q s => s.step (.cancelAllOrders q)
  | .createSnapshot => some fun s => s.step (.createSnapshot req.snapshotId)
  | .restoreSnapshot => params.head?.map fun id s => s.step (.restoreSnapshot id)
  | .healthCheck | .wsHandler | .getGlobalStats | .issueToken | .getControls | .listInstruments
  | .getAllPrices | .getLatestPrice | .listUnderlyings | .getUnderlying | .listExpirations
  | .getExpiration | .getVolatilitySurface | .getOptionChain | .listStrikes | .getStrike
  | .getOptionBook | .getOptionQuote | .getOptionGreeks | .getOptionSnapshot | .getLastTrade
  | .getOhlc | .getOrderbookMetrics | .listOrders | .getOrderStatus | .listPositions
  | .getPosition | .listExecutions | .getExecution | .listSnapshots | .getSnapshot => none

/-- A handler runs on the decoded parameters of its path. -/
def Handler.run (h : Handler) (params : List String) (req : HttpRequest Body)
    (s : AppState B F) : AppState B F :=
  match params.mapM ex.decode with
  | none => s
  | some params =>
    match h.change display ex params req with
    | none => s
    | some f => f s

/-- The handler that is called for a request, with the raw parameters of the path. -/
def reached (k : Credentials) (m : Method) (path : String) : Option (Handler × List String) :=
  match authMiddleware k m path with
  | .error _ => none
  | .ok () =>
    (routeOf path).bind fun r => (r.handler m).map fun h =>
      (h, (values r.pattern (pieces path)).map String.ofList)

def serve (k : Credentials) (req : HttpRequest Body) (s : AppState B F) : AppState B F :=
  match reached k req.method req.path with
  | none => s
  | some (h, params) => h.run display ex params req s

end Handlers
end Auth
end OptionChainBackend
