import Mathlib.Data.List.Sort
import OptionChainBackend.Api.Orders

/-!
The handlers over many orders: `bulk_submit_orders` with its atomic rollback,
`bulk_cancel_orders` and `cancel_all_orders`.
-/
namespace OptionChainBackend
open Foundation Upstream MarketMaker

/-- What the atomic rollback makes of a tracked order that executed something. -/
def OrderInfo.rolledBack (filledQuantity : ℕ) (remainderCleared : Bool) (now : ℕ)
    (o : OrderInfo) : OrderInfo :=
  if remainderCleared then
    { o with
      filledQuantity := filledQuantity
      remainingQuantity := 0
      status := if o.originalQuantity ≤ filledQuantity then .filled else .canceled
      updatedAtMs := now }
  else
    { o with
      filledQuantity := filledQuantity
      remainingQuantity := o.originalQuantity - min filledQuantity o.originalQuantity
      status := .partialFill
      updatedAtMs := now }

/-- An order of a batch that the book accepted, and what executed on submit. -/
structure AcceptedBulkOrder where
  index : ℕ
  orderId : OrderId
  filledQuantity : ℕ
  deriving DecidableEq, Repr

/-- The fate of an accepted order in an atomic rollback. -/
inductive RollbackOutcome where
  | cleanlyRolledBack
  | unrollbackable (orderId warning : String)
  | phantom (warning : String)
  deriving DecidableEq, Repr

namespace RollbackOutcome

def isUnrollbackable : RollbackOutcome → Bool
  | .unrollbackable _ _ => true
  | _ => false

def warning : RollbackOutcome → Option String
  | .cleanlyRolledBack => none
  | .unrollbackable _ warning => some warning
  | .phantom warning => some warning

end RollbackOutcome

section Warnings

def remainderNote : Except String Bool → String
  | .ok true => "resting remainder cancelled"
  | .ok false => "no remainder was resting (order fully filled)"
  | .error e => "resting remainder could NOT be cancelled: " ++ e

def filledWarning (key : String) (index filled : ℕ) (cancel : Except String Bool) : String :=
  s!"order {key} (index {index}) could not be fully rolled back: {filled} unit(s) already " ++
    s!"filled; a fill cannot be un-filled ({remainderNote cancel})"

def cancelFailedWarning (key : String) (index : ℕ) (e : String) : String :=
  s!"order {key} (index {index}) could not be rolled back: cancel failed: {e}"

def phantomWarning (key : String) (index : ℕ) : String :=
  s!"order {key} (index {index}) could not be rolled back: " ++
    "no fill recorded yet it is no longer resting in the book"

end Warnings

namespace AppState
variable {B F : Type} [Upstream B]

section Submit

/-- The tracked record of a bulk item; its expiration is the item's own segment. -/
def itemInfo (B : Type) [Upstream B] (now : ℕ) (item : BulkOrderItem) (id : OrderId)
    (r : MatchResult) : OrderInfo :=
  .ofMatch B id item.underlying item.expiration item.strike item.style item.side item.price
    item.quantity .gtc now r

def acceptItem (s : AppState B F) (a : OptionAddr) (item : BulkOrderItem) (id : OrderId)
    (r : MatchResult) (x : Exchange B) : AppState B F :=
  ((s.withMarket x).reportLimit
    (symbolOf item.underlying item.expiration item.strike item.style) item.underlying a item.side
    item.price r).track (itemInfo B x.now item id r)

def submitItem (s : AppState B F) (a : OptionAddr) (item : BulkOrderItem) :
    Except String (OrderId × ℕ) × AppState B F :=
  let (id, x) := s.market.newOrderId
  match x.addLimitOrderFull a id item.side item.price item.quantity with
  | (.error e, x) => (.error ("Failed to add order: " ++ e), s.withMarket x)
  | (.ok r, x) => (.ok (id, r.executedQuantity), s.acceptItem a item id r x)

/-- Unlike `add_order`, this creates the underlying only. -/
def submitSingleOrder (s : AppState B F) (item : BulkOrderItem) :
    Except String (OrderId × ℕ) × AppState B F :=
  let s := s.withMarket (s.market.getOrCreate item.underlying)
  match s.market.locate item.underlying item.expiration item.strike item.style with
  | .error .strike => (.error ("Strike not found: " ++ strikeError B item.strike), s)
  | .error _ => (.error ("Expiration not found: " ++ item.expiration), s)
  | .ok a => s.submitItem a item

end Submit

section Rollback

def cancelBulkItemOrder (s : AppState B F) (item : BulkOrderItem) (id : OrderId) :
    Except String Bool × AppState B F :=
  match s.market.locate item.underlying item.expiration item.strike item.style with
  | .error .underlying =>
    (.error ("underlying not found: " ++ underlyingError B item.underlying), s)
  | .error .expiration => (.error ("expiration not found: " ++ item.expiration), s)
  | .error .strike => (.error ("strike not found: " ++ strikeError B item.strike), s)
  | .ok a =>
    match s.market.cancelOrder a id with
    | (.error e, x) => (.error ("cancel failed: " ++ e), s.withMarket x)
    | (.ok true, x) => (.ok true, (s.withMarket x).publishLevelDelta a item.side item.price)
    | (.ok false, x) => (.ok false, s.withMarket x)

/-- The outcome of one accepted order, by what executed on submit and the cancel's answer. -/
def classify (B : Type) [Upstream B] (o : AcceptedBulkOrder) (cancel : Except String Bool) :
    RollbackOutcome :=
  let key := showOrderId B o.orderId
  if 0 < o.filledQuantity then
    .unrollbackable key (filledWarning key o.index o.filledQuantity cancel)
  else
    match cancel with
    | .ok true => .cleanlyRolledBack
    | .ok false => .phantom (phantomWarning key o.index)
    | .error e => .unrollbackable key (cancelFailedWarning key o.index e)

/-- The tracking behind that outcome. -/
def reconcile (s : AppState B F) (o : AcceptedBulkOrder) (cancel : Except String Bool) :
    AppState B F :=
  let key := showOrderId B o.orderId
  if 0 < o.filledQuantity then
    { s with
      orders := s.orders.modify key
        (.rolledBack o.filledQuantity cancel.toBool s.market.now) }
  else
    match cancel with
    | .ok _ => s.untrack key
    | .error _ => s

def rollbackOrder (s : AppState B F) (item : BulkOrderItem) (o : AcceptedBulkOrder) :
    RollbackOutcome × AppState B F :=
  let (cancel, s) := s.cancelBulkItemOrder item o.orderId
  (classify B o cancel, s.reconcile o cancel)

abbrev Outcomes := Table ℕ RollbackOutcome

def rollbackNext (items : List BulkOrderItem) (acc : Outcomes × AppState B F)
    (o : AcceptedBulkOrder) : Outcomes × AppState B F :=
  match items[o.index]? with
  | none => acc
  | some item =>
    let (outcome, s) := acc.2.rollbackOrder item o
    (acc.1.insert o.index outcome, s)

def rollbackOrders (s : AppState B F) (items : List BulkOrderItem)
    (accepted : List AcceptedBulkOrder) : Outcomes × AppState B F :=
  accepted.foldl (rollbackNext items) (∅, s)

def rollbackResult (outcomes : Outcomes) (failedIndex : ℕ) (failedError : String) (i : ℕ) :
    BulkOrderResultItem :=
  match outcomes.lookup i with
  | some (.unrollbackable orderId warning) => ⟨i, some orderId, .accepted, some warning⟩
  | some (.phantom warning) => ⟨i, none, .rejected, some warning⟩
  | some .cleanlyRolledBack => ⟨i, none, .rejected, some "Rolled back due to atomic failure"⟩
  | none =>
    if i = failedIndex then ⟨i, none, .rejected, some failedError⟩
    else ⟨i, none, .rejected, some "Not attempted due to atomic failure"⟩

def rollbackResponse (items : List BulkOrderItem) (outcomes : Outcomes) (failedIndex : ℕ)
    (failedError : String) : BulkOrderResponse :=
  let values := outcomes.entries.map fun e => e.2
  let successCount := (values.filter RollbackOutcome.isUnrollbackable).length
  { successCount := successCount
    failureCount := items.length - min successCount items.length
    results := (List.range items.length).map (rollbackResult outcomes failedIndex failedError)
    rolledBack := true
    rollbackWarnings := (values.filterMap RollbackOutcome.warning).insertionSort (· ≤ ·) }

def rollbackAtomicBulk (s : AppState B F) (items : List BulkOrderItem)
    (accepted : List AcceptedBulkOrder) (failedIndex : ℕ) (failedError : String) :
    BulkOrderResponse × AppState B F :=
  let (outcomes, s) := s.rollbackOrders items accepted
  (rollbackResponse items outcomes failedIndex failedError, s)

end Rollback

section BulkSubmit

/-- The submission loop. `failed` is the item an atomic batch stopped at. -/
structure Batch (B F : Type) where
  state : AppState B F
  results : List BulkOrderResultItem
  successCount : ℕ
  failureCount : ℕ
  accepted : List AcceptedBulkOrder
  failed : Option (ℕ × String)

def Batch.start (s : AppState B F) : Batch B F := ⟨s, [], 0, 0, [], none⟩

def Batch.next (atomic : Bool) (b : Batch B F) (e : BulkOrderItem × ℕ) : Batch B F :=
  match b.failed with
  | some _ => b
  | none =>
    match b.state.submitSingleOrder e.1 with
    | (.ok (id, filledQuantity), s) =>
      { b with
        state := s
        accepted := b.accepted ++ [⟨e.2, id, filledQuantity⟩]
        results := b.results ++ [⟨e.2, some (showOrderId B id), .accepted, none⟩]
        successCount := b.successCount + 1 }
    | (.error error, s) =>
      if atomic then { b with state := s, failed := some (e.2, error) }
      else
        { b with
          state := s
          results := b.results ++ [⟨e.2, none, .rejected, some error⟩]
          failureCount := b.failureCount + 1 }

/-- The state after one round is that of its item, or the old one. -/
theorem Batch.next_state_cases (atomic : Bool) (b : Batch B F) (e : BulkOrderItem × ℕ) :
    (b.next atomic e).state = b.state ∨
      (b.next atomic e).state = (b.state.submitSingleOrder e.1).2 := by
  unfold Batch.next
  cases b.failed with
  | some _ => exact .inl rfl
  | none =>
    right
    dsimp only
    split
    · rename_i he
      simp [he]
    · rename_i he
      split_ifs <;> simp [he]

def submitAll (s : AppState B F) (atomic : Bool) (items : List BulkOrderItem) : Batch B F :=
  items.zipIdx.foldl (Batch.next atomic) (.start s)

def Batch.finish (items : List BulkOrderItem) (b : Batch B F) :
    BulkOrderResponse × AppState B F :=
  match b.failed with
  | some (index, error) => b.state.rollbackAtomicBulk items b.accepted index error
  | none => (⟨b.successCount, b.failureCount, b.results, false, []⟩, b.state)

def bulkSubmitOrders (s : AppState B F) (body : BulkOrderRequest) :
    Except ApiError BulkOrderResponse × AppState B F :=
  if body.orders = [] then (.error (.invalidRequest "Orders array cannot be empty"), s)
  else
    let out := (s.submitAll body.atomic body.orders).finish body.orders
    (.ok out.1, out.2)

end BulkSubmit

section BulkCancel

/-- Cancel a tracked order on the book its stored strings lead to. -/
def cancelTracked (s : AppState B F) (key : String) (o : OrderInfo) :
    Except String Unit × AppState B F :=
  match parseOrderId B key, styleOfName o.style with
  | none, _ => (.error "Invalid order ID format", s)
  | some _, none => (.error "Invalid option style in order info", s)
  | some id, some style =>
    match s.market.locate o.underlying o.expiration o.strike style with
    | .error _ => (.error "Order book path not found", s)
    | .ok a =>
      match s.market.cancelOrder a id with
      | (.ok true, x) =>
        (.ok (), ((s.withMarket x).untrack key).publishLevelDelta a o.side o.price)
      | (.ok false, x) => (.error "Order not found in book", s.withMarket x)
      | (.error e, x) => (.error ("Cancel failed: " ++ e), s.withMarket x)

def bulkCancelOne (s : AppState B F) (key : String) : Except String Unit × AppState B F :=
  match s.orders.lookup key with
  | none => (.error "Order not found", s)
  | some o => s.cancelTracked key o

def bulkCancelNext (acc : BulkCancelResponse × AppState B F) (key : String) :
    BulkCancelResponse × AppState B F :=
  match acc.2.bulkCancelOne key with
  | (.ok (), s) =>
    (⟨acc.1.successCount + 1, acc.1.failureCount, acc.1.results ++ [⟨key, true, none⟩]⟩, s)
  | (.error e, s) =>
    (⟨acc.1.successCount, acc.1.failureCount + 1, acc.1.results ++ [⟨key, false, some e⟩]⟩, s)

theorem bulkCancelNext_snd (acc : BulkCancelResponse × AppState B F) (key : String) :
    (bulkCancelNext acc key).2 = (acc.2.bulkCancelOne key).2 := by
  unfold bulkCancelNext
  split <;> simp [*]

def bulkCancelOrders (s : AppState B F) (orderIds : List String) :
    Except ApiError BulkCancelResponse × AppState B F :=
  if orderIds = [] then (.error (.invalidRequest "Order IDs array cannot be empty"), s)
  else
    let out := orderIds.foldl bulkCancelNext (⟨0, 0, []⟩, s)
    (.ok out.1, out.2)

end BulkCancel

section CancelAll

/-- The query of `cancel_all_orders` with its side and style read. -/
structure CancelFilter where
  underlying : Option String
  expiration : Option String
  side : Option Side
  style : Option OptionStyle
  deriving DecidableEq, Repr

def parseSideFilter : Option String → Except ApiError (Option Side)
  | none => .ok none
  | some side =>
    if lowercase side = "buy" then .ok (some .buy)
    else if lowercase side = "sell" then .ok (some .sell)
    else .error (.invalidRequest s!"Invalid side: {side}. Use 'buy' or 'sell'")

def parseStyleFilter : Option String → Except ApiError (Option OptionStyle)
  | none => .ok none
  | some style =>
    match styleOfName style with
    | some style => .ok (some style)
    | none => .error (.invalidRequest s!"Invalid style: {style}. Use 'call' or 'put'")

def parseCancelFilter (q : CancelAllQuery) : Except ApiError CancelFilter := do
  let side ← parseSideFilter q.side
  let style ← parseStyleFilter q.style
  return ⟨q.underlying, q.expiration, side, style⟩

/-- The orders `cancel_all_orders` cancels: stored strings and cached status decide. -/
def CancelFilter.selects (f : CancelFilter) (o : OrderInfo) : Bool :=
  (f.underlying.all (o.underlying = ·)) && (f.expiration.all (o.expiration = ·)) &&
    (f.side.all (o.side = ·)) && (f.style.all (styleOfName o.style = some ·)) &&
    decide (o.status = .active)

def cancelNext (acc : CancelAllResponse × AppState B F) (e : String × OrderInfo) :
    CancelAllResponse × AppState B F :=
  match acc.2.cancelTracked e.1 e.2 with
  | (.ok (), s) => (⟨acc.1.canceledCount + 1, acc.1.failedCount⟩, s)
  | (.error _, s) => (⟨acc.1.canceledCount, acc.1.failedCount + 1⟩, s)

theorem cancelNext_snd (acc : CancelAllResponse × AppState B F) (e : String × OrderInfo) :
    (cancelNext acc e).2 = (acc.2.cancelTracked e.1 e.2).2 := by
  unfold cancelNext
  split <;> simp [*]

def cancelSelected (s : AppState B F) (f : CancelFilter) : CancelAllResponse × AppState B F :=
  (s.orders.select fun _ o => f.selects o).foldl cancelNext (⟨0, 0⟩, s)

def cancelAllOrders (s : AppState B F) (q : CancelAllQuery) :
    Except ApiError CancelAllResponse × AppState B F :=
  match parseCancelFilter q with
  | .error e => (.error e, s)
  | .ok f =>
    let out := s.cancelSelected f
    (.ok out.1, out.2)

end CancelAll
end AppState
end OptionChainBackend
