import OptionChainBackend.Api.Bulk
import OptionChainBackend.MarketMaker.Runs

/-!
Snapshots, the creation and deletion of books, and the requests of the process as one machine:
the REST surface, the operations of the engine, the cleanup task and the clock.
-/
namespace OptionChainBackend
open Foundation Upstream MarketMaker

namespace AppState
variable {B F : Type} [Upstream B]

section Create

def createUnderlying (s : AppState B F) (underlying : String) : AppState B F :=
  s.withMarket (s.market.getOrCreate underlying)

def createExpiration (s : AppState B F) (underlying expStr : String) :
    Except ApiError Unit × AppState B F :=
  match parseExpiration expStr with
  | .error e => (.error e, s)
  | .ok e => (.ok (), s.withMarket
      ((s.market.getOrCreate underlying).getOrCreateExpiration underlying e))

def createStrike (s : AppState B F) (underlying expStr : String) (strike : ℕ) :
    Except ApiError Unit × AppState B F :=
  match parseExpiration expStr with
  | .error e => (.error e, s)
  | .ok e => (.ok (), s.withMarket
      (((s.market.getOrCreate underlying).getOrCreateExpiration underlying e).getOrCreateStrike
        underlying e strike))

def deleteUnderlying (s : AppState B F) (underlying : String) :
    Except ApiError Unit × AppState B F :=
  if s.market.get underlying then (.ok (), s.withMarket (s.market.remove underlying))
  else (.error (.underlyingNotFound underlying), s)

end Create

section CreateSnapshot

structure SaveTally where
  infos : List OrderbookSnapshotInfo
  orderbooksSaved : ℕ
  ordersSaved : ℕ
  orderbooksFailed : ℕ

/-- Every option book, in the order the snapshot visits them. -/
def allBooks (x : Exchange B) : List OptionAddr :=
  x.underlyings.flatMap fun u => (x.expirations u).flatMap fun e =>
    (x.strikes u e).flatMap fun strike => [⟨u, e, strike, .call⟩, ⟨u, e, strike, .put⟩]

def snapshotInfo (x : Exchange B) (snapshotId : String) (a : OptionAddr)
    (snapshot : OrderBookSnapshot) (data : String) : OrderbookSnapshotInfo where
  snapshotId := snapshotId
  underlying := a.underlying
  expiration := formatExpiration B x.now a.expiration
  strike := a.strike
  style := Desk.styleName a.style
  orderCount := snapshot.orders.length
  bidLevels := snapshot.bids.length
  askLevels := snapshot.asks.length
  data := data
  createdAt := x.now

/-- An empty book is skipped; one that cannot be serialized is counted and skipped. -/
def saveBook (x : Exchange B) (snapshotId : String) (t : SaveTally) (a : OptionAddr) :
    SaveTally :=
  let snapshot := Upstream.createSnapshot (x.books a)
  if 0 < snapshot.orders.length then
    match serializeSnapshot B snapshot with
    | .ok data =>
      { t with
        infos := t.infos ++ [snapshotInfo x snapshotId a snapshot data]
        ordersSaved := t.ordersSaved + snapshot.orders.length
        orderbooksSaved := t.orderbooksSaved + 1 }
    | .error _ => { t with orderbooksFailed := t.orderbooksFailed + 1 }
  else t

def saveBooks (x : Exchange B) (snapshotId : String) : SaveTally :=
  (allBooks x).foldl (saveBook x snapshotId) ⟨[], 0, 0, 0⟩

/-- `snapshotId` is the UUID drawn for this snapshot. -/
def createSnapshot (s : AppState B F) (snapshotId : String) :
    CreateSnapshotResponse × AppState B F :=
  let t := saveBooks s.market snapshotId
  let now := s.market.now
  (⟨t.orderbooksFailed = 0, snapshotId, t.orderbooksSaved, t.ordersSaved, t.orderbooksFailed, now⟩,
    { s with snapshotSeq := s.snapshotSeq + 1 }.insertSnapshotBounded snapshotId
      ⟨now, t.infos, s.snapshotSeq⟩)

end CreateSnapshot

section RestoreSnapshot

structure RestoreTally where
  orderbooksRestored : ℕ
  ordersRestored : ℕ
  orderbooksFailed : ℕ

def RestoreTally.fail (t : RestoreTally) : RestoreTally :=
  { t with orderbooksFailed := t.orderbooksFailed + 1 }

/-- Unlike path segments, stored styles are matched with their case. -/
def storedStyle (style : String) : Option OptionStyle :=
  if style = "call" then some .call else if style = "put" then some .put else none

/-- Restore one book. What was created on the way stays when a later check fails. -/
def restoreInfo (acc : RestoreTally × Exchange B) (info : OrderbookSnapshotInfo) :
    RestoreTally × Exchange B :=
  match parseSnapshot B info.data with
  | .error _ => (acc.1.fail, acc.2)
  | .ok snapshot =>
    match parseExpiration info.expiration, storedStyle info.style with
    | .error _, _ => (acc.1.fail, acc.2.getOrCreate info.underlying)
    | .ok e, none =>
      (acc.1.fail, acc.2.openBook ⟨info.underlying, e, info.strike, .call⟩)
    | .ok e, some style =>
      let a : OptionAddr := ⟨info.underlying, e, info.strike, style⟩
      match (acc.2.openBook a).restoreFromSnapshot a snapshot with
      | (.ok (), x) => (⟨acc.1.orderbooksRestored + 1, acc.1.ordersRestored + info.orderCount,
          acc.1.orderbooksFailed⟩, x)
      | (.error _, x) => (acc.1.fail, x)

def restoreInfos (x : Exchange B) (infos : List OrderbookSnapshotInfo) :
    RestoreTally × Exchange B :=
  infos.foldl restoreInfo (⟨0, 0, 0⟩, x)

def restoreSnapshot (s : AppState B F) (snapshotId : String) :
    Except ApiError RestoreSnapshotResponse × AppState B F :=
  match s.snapshots.lookup snapshotId with
  | none => (.error (.notFound s!"Snapshot {snapshotId} not found"), s)
  | some stored =>
    let (t, x) := restoreInfos s.market stored.infos
    (.ok ⟨t.orderbooksFailed = 0, snapshotId, t.orderbooksRestored, t.ordersRestored,
      t.orderbooksFailed, s.market.now⟩, s.withMarket x)

end RestoreSnapshot
end AppState

/-- One completed request, engine operation, cleanup run or passing of time. -/
inductive Request (F : Type) where
  | addOrder (p : OptionPath) (body : AddOrderRequest)
  | submitMarketOrder (p : OptionPath) (body : MarketOrderRequest)
  | cancelOrder (p : OptionPath) (orderIdStr : String)
  | modifyOrder (p : OptionPath) (orderIdStr : String) (body : ModifyOrderRequest)
  | bulkSubmitOrders (body : BulkOrderRequest)
  | bulkCancelOrders (orderIds : List String)
  | cancelAllOrders (query : CancelAllQuery)
  | createSnapshot (snapshotId : String)
  | restoreSnapshot (snapshotId : String)
  | createUnderlying (underlying : String)
  | createExpiration (underlying expStr : String)
  | createStrike (underlying expStr : String) (strike : ℕ)
  | deleteUnderlying (underlying : String)
  | cleanupOldOrders (maxAgeSecs : ℕ)
  | engine (op : Operation F)
  | tick (ms : ℕ)

namespace AppState
variable {B F : Type} [Upstream B] [F64 F]

def step (s : AppState B F) : Request F → AppState B F
  | .addOrder p body => (s.addOrder p body).2
  | .submitMarketOrder p body => (s.submitMarketOrder p body).2
  | .cancelOrder p orderIdStr => (s.cancelOrder p orderIdStr).2
  | .modifyOrder p orderIdStr body => (s.modifyOrder p orderIdStr body).2
  | .bulkSubmitOrders body => (s.bulkSubmitOrders body).2
  | .bulkCancelOrders orderIds => (s.bulkCancelOrders orderIds).2
  | .cancelAllOrders query => (s.cancelAllOrders query).2
  | .createSnapshot snapshotId => (s.createSnapshot snapshotId).2
  | .restoreSnapshot snapshotId => (s.restoreSnapshot snapshotId).2
  | .createUnderlying underlying => s.createUnderlying underlying
  | .createExpiration underlying expStr => (s.createExpiration underlying expStr).2
  | .createStrike underlying expStr strike => (s.createStrike underlying expStr strike).2
  | .deleteUnderlying underlying => (s.deleteUnderlying underlying).2
  | .cleanupOldOrders maxAgeSecs => (s.cleanupOldOrders maxAgeSecs).2
  | .engine op => { s with toDesk := op.apply s.toDesk }
  | .tick ms => s.withMarket (s.market.tick ms)

end AppState
end OptionChainBackend
