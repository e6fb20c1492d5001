import OptionChainBackend.Api.Addressed
import OptionChainBackend.Api.CancelAll
import OptionChainBackend.Api.CancelOrder

/-!
Tracked orders against the books. A record says what rests and what executed of its order when
the order is submitted. It stays right as long as nobody trades with the order afterwards, an
order that does not rest leaves no remainder, and what takes it off its book also untracks it.
-/
namespace OptionChainBackend
open Foundation Upstream MarketMaker Exchange

namespace Exchange
variable {B : Type} [Upstream B] {x x' x'' : Exchange B} {i id : OrderId} {a : OptionAddr}
  {side : Side} {limit : Option ℕ} {q : ℕ} {r : MatchResult} {left : Option RestingOrder}

/-- Neither what rests nor what executed of the order changed. -/
structure Unmoved (x x' : Exchange B) (i : OrderId) : Prop where
  remaining : x'.remaining i = x.remaining i
  executed : x'.executed i = x.executed i

theorem Unmoved.trans (h : Unmoved x x' i) (h' : Unmoved x' x'' i) : Unmoved x x'' i :=
  ⟨h'.remaining.trans h.remaining, h'.executed.trans h.executed⟩

theorem Quiet.unmoved (h : Quiet x x') (i : OrderId) : Unmoved x x' i :=
  ⟨h.remaining i, h.executed i⟩

theorem Cancelled.unmoved (h : Cancelled x x' a id) (hi : i ≠ id) : Unmoved x x' i :=
  ⟨h.toRemoved.remaining_ne hi, h.toRemoved.shrunk.executed i⟩

theorem Submitted.unmoved (h : Submitted x x' a side limit q r left) (hh : x.HomedAt i)
    (hi : i ≠ x.nextOrderId) (hm : makerFilled r.trades i = 0) : Unmoved x x' i where
  remaining := by
    have hrem := h.filled.remaining_ne (i := i) hh hi
    rw [hm, Nat.add_zero] at hrem
    exact hrem
  executed := by
    have hexec := h.filled.executed_ne hi
    rw [hm, Nat.add_zero] at hexec
    exact hexec

end Exchange

namespace OrderInfo
variable {B : Type} [Upstream B] {x x' : Exchange B} {i : OrderId} {o : OrderInfo}
  {a : OptionAddr}

/-- The numbers of the record are those of the books. -/
structure Exact (x : Exchange B) (i : OrderId) (o : OrderInfo) : Prop where
  remaining : o.remainingQuantity = x.remaining i
  executed : o.filledQuantity = x.executed i
  fills : (o.fills.map OrderFillInfo.quantity).sum = o.filledQuantity
  total : o.filledQuantity + o.remainingQuantity = o.originalQuantity

structure Accurate (x : Exchange B) (i : OrderId) (o : OrderInfo) : Prop where
  working : o.status.working = true → o.Exact x i
  filled : o.status = .filled → x.remaining i = 0

theorem Exact.accurate (h : o.Exact x i) (hf : o.status = .filled → o.remainingQuantity = 0) :
    o.Accurate x i where
  working _ := h
  filled hs := by
    have hzero := hf hs
    have hrem := h.remaining
    omega

theorem Exact.unmoved (h : o.Exact x i) (hu : Unmoved x x' i) : o.Exact x' i where
  remaining := by rw [h.remaining, hu.remaining]
  executed := by rw [h.executed, hu.executed]
  fills := h.fills
  total := h.total

theorem Accurate.unmoved (h : o.Accurate x i) (hu : Unmoved x x' i) : o.Accurate x' i where
  working hs := (h.working hs).unmoved hu
  filled hs := by rw [hu.remaining, h.filled hs]

section Submission
variable {side : Side} {limit : Option ℕ} {q : ℕ} {r : MatchResult} {left : Option RestingOrder}
  (underlying expiration : String) (strike : ℕ) (style : OptionStyle) (price : ℕ)
  (tif : OrderTimeInForce) (now : ℕ)

/-- A record made from a match is exact when the whole remainder rests. -/
theorem exact_ofMatch (hf : x.Fresh) (hs : Submitted x x' a side limit q r left)
    (hleft : (left.map RestingOrder.visibleQuantity).getD 0 = r.remainingQuantity) :
    (OrderInfo.ofMatch B x.nextOrderId underlying expiration strike style side price q tif now
      r).Exact x' x.nextOrderId where
  remaining := by
    have hself := hs.filled.remaining_self
    rw [hleft] at hself
    exact hself.symm
  executed := by
    have hself := hs.filled.executed_self
    have hzero : x.newOrderId.2.executed x.nextOrderId = 0 := hf.executed_eq_zero le_rfl
    rw [hzero, Nat.zero_add] at hself
    exact hself.symm
  fills := by simp [ofMatch, MatchResult.orderFills, MatchResult.executedQuantity,
    Function.comp_def]
  total := hs.filled.matched.conserves

theorem accurate_ofMatch (hf : x.Fresh) (hs : Submitted x x' a side limit q r left)
    (hleft : (left.map RestingOrder.visibleQuantity).getD 0 = r.remainingQuantity) :
    (OrderInfo.ofMatch B x.nextOrderId underlying expiration strike style side price q tif now
      r).Accurate x' x.nextOrderId := by
  apply (exact_ofMatch underlying expiration strike style price tif now hf hs hleft).accurate
  intro hst
  show r.remainingQuantity = 0
  change r.orderStatus = .filled at hst
  have hdone := hs.filled.matched.complete
  unfold MatchResult.orderStatus at hst
  split_ifs at hst with hc
  rw [hc] at hdone
  simpa using hdone.symm

/-- The record of a replacement is right when the replacement meets nobody. -/
theorem accurate_untouched (hf : x.Fresh) (hs : Submitted x x' a side limit q r left)
    (hleft : (left.map RestingOrder.visibleQuantity).getD 0 = r.remainingQuantity)
    (hr : r.trades = []) :
    (OrderInfo.ofMatch B x.nextOrderId underlying expiration strike style side price q tif now
      (.untouched q)).Accurate x' x.nextOrderId := by
  have hexact := exact_ofMatch underlying expiration strike style price tif now hf hs hleft
  have hnone : r.executedQuantity = 0 := by simp [MatchResult.executedQuantity, hr]
  have hall : r.remainingQuantity = q := by
    have hcons := hs.filled.matched.conserves
    omega
  have hrem : r.remainingQuantity = x'.remaining x.nextOrderId := hexact.remaining
  have hexec : r.executedQuantity = x'.executed x.nextOrderId := hexact.executed
  constructor
  · intro _
    constructor
    · show q = x'.remaining x.nextOrderId
      omega
    · show 0 = x'.executed x.nextOrderId
      omega
    · rfl
    · show 0 + q = q
      omega
  · intro hst
    cases hst

end Submission

end OrderInfo

namespace AppState
variable {B F : Type} [Upstream B] {s s' : AppState B F} {x : Exchange B} {a : OptionAddr}
  {id : OrderId} {key : String} {r : MatchResult}

section Conditions

/-- The match trades with no tracked order. -/
def Spares (s : AppState B F) (r : MatchResult) : Prop :=
  ∀ t ∈ r.trades, s.orders.lookup (showOrderId B t.makerOrderId) = none

/-- A limit order that trades with no tracked order, and rests with what it leaves. -/
def LimitSpares (s : AppState B F) (a : OptionAddr) (tif : TimeInForce) (body : AddOrderRequest) :
    Prop :=
  ∀ r, ((s.market.openBook a).newOrderId.2.addLimitOrderWithTif a s.market.nextOrderId body.side
    body.price body.quantity tif).1 = .ok r →
      s.Spares r ∧ (tif.rests = true ∨ r.remainingQuantity = 0)

def MarketSpares (s : AppState B F) (a : OptionAddr) (body : MarketOrderRequest) : Prop :=
  ∀ r, ((s.market.openBook a).newOrderId.2.submitMarketOrder a s.market.nextOrderId body.quantity
    body.side).1 = .ok r → s.Spares r

/-- At its turn an item trades neither with a tracked order nor with an order of its own batch. -/
def ItemSpares (s : AppState B F) (done : List BulkOrderItem) (item : BulkOrderItem) : Prop :=
  ∀ a r, ((s.market.placeItems done).placeItem item).1 = some (a, r) →
    s.Spares r ∧ ∀ t ∈ r.trades, t.makerOrderId < s.market.nextOrderId

/-- The id in the request is written the way the order is tracked, if it is tracked. -/
def SameKey (s : AppState B F) (id : OrderId) (key : String) : Prop :=
  s.orders.lookup (showOrderId B id) = none ∨ key = showOrderId B id

/-- What DELETE cancels is tracked under `key` if at all; what it does not find rests nowhere. -/
def CancelSpares (s : AppState B F) (a : OptionAddr) (id : OrderId) (key : String) : Prop :=
  match (s.market.cancelOrder a id).1 with
  | .ok true => s.SameKey id key
  | .ok false => (s.orders.lookup key).isSome = true → s.market.remaining id = 0
  | .error _ => True

/-- The replacement trades with nobody on arrival. -/
def ReplaceSpares (s : AppState B F) (a : OptionAddr) (id : OrderId) (key : String)
    (side : Side) (price q : ℕ) : Prop :=
  s.SameKey id key ∧ ∀ r, ((s.market.cancelOrder a id).2.newOrderId.2.addLimitOrderWithTif a
    s.market.nextOrderId side price q .gtc).1 = .ok r → r.trades = []

/-- No tracked order passes its date. -/
def TickSpares (s : AppState B F) (ms : ℕ) : Prop :=
  ∀ a i o t, s.market.getOrder a i = some o → o.timeInForce = .gtd t → t ≤ s.market.now + ms →
    s.orders.lookup (showOrderId B i) = none

/-- The request leaves the records of other orders right, and makes a right one of its own. -/
def TrackingSafe (s : AppState B F) : Request F → Prop
  | .addOrder p body => ∀ a tif, s.checkAddOrder p body = .ok (a, tif) → s.LimitSpares a tif body
  | .submitMarketOrder p body => ∀ a, checkMarketOrder p body = .ok a → s.MarketSpares a body
  | .cancelOrder p key => ∀ a id, target s.market p key = .ok (a, id) → s.CancelSpares a id key
  | .modifyOrder p key body => ∀ a id o price q,
      s.checkModifyOrder p key body = .ok (a, id, o, price, q) →
        s.ReplaceSpares a id key o.side price q
  | .bulkSubmitOrders body => EachInTurn (fun done item =>
      (body.atomic = true → EachInTurn s.market.Accepts done) → s.ItemSpares done item) body.orders
  | .bulkCancelOrders _ => True
  | .cancelAllOrders _ => True
  | .tick ms => s.TickSpares ms
  | _ => False

end Conditions

/-- A grounded state whose records are all accurate. -/
structure Reconciled (s : AppState B F) : Prop where
  grounded : s.Grounded
  homed : s.market.Homed
  accurate : s.Tracks fun x i o => o.Accurate x i

/-- Every record is new and accurate, or an old one whose order did not move. -/
theorem Reconciled.next (h : s.Reconciled) (ha : Advances s s')
    (ho : ∀ i o, s'.orders.lookup (showOrderId B i) = some o → o.Accurate s'.market i ∨
      s.orders.lookup (showOrderId B i) = some o ∧ Unmoved s.market s'.market i) :
    s'.Reconciled where
  grounded := h.grounded.advance ha
  homed := ha.wanes.homed h.homed
  accurate i o hi := by
    rcases ho i o hi with hnew | ⟨hold, hu⟩
    · exact hnew
    · exact (h.accurate i o hold).unmoved hu

theorem Reconciled.idle (h : s.Reconciled) (hi : Idle s.market x) :
    (s.withMarket x).Reconciled := by
  apply h.next (.withMarket (hi.toQuiet.wanes h.grounded.fresh))
  intro i o ho
  exact .inr ⟨ho, hi.toQuiet.unmoved i⟩

theorem Spares.makerFilled (h : s.Spares r) {i : OrderId} {o : OrderInfo}
    (ho : s.orders.lookup (showOrderId B i) = some o) : makerFilled r.trades i = 0 := by
  apply makerFilled_eq_zero
  intro t ht he
  have hnone := h t ht
  rw [he, ho] at hnone
  cases hnone

variable [LawfulUpstream B]

section Submissions
variable {side : Side} {limit : Option ℕ} {q : ℕ} {left : Option RestingOrder}

/-- A submission that trades with no tracked order. -/
theorem Reconciled.submitted (h : s.Reconciled) (ha : Advances s s')
    (hs : Submitted s.market s'.market a side limit q r left) (hr : s.Spares r)
    (ho : s'.orders = s.orders ∨ ∃ info, info.Accurate s'.market s.market.nextOrderId ∧
      s'.orders = s.orders.insert (showOrderId B s.market.nextOrderId) info) :
    s'.Reconciled := by
  apply h.next ha
  have hold : ∀ i o, s.orders.lookup (showOrderId B i) = some o →
      Unmoved s.market s'.market i := by
    intro i o hi
    obtain ⟨c, hc⟩ := h.grounded.home hi
    have hlt := h.grounded.fresh.home hc
    exact hs.unmoved (h.homed i) (Nat.ne_of_lt hlt) (hr.makerFilled hi)
  intro i o hi
  rcases ho with ho | ⟨info, hinfo, ho⟩
  · rw [ho] at hi
    exact .inr ⟨hi, hold i o hi⟩
  · rw [ho, Table.lookup_insert_eq] at hi
    split_ifs at hi with he
    · obtain rfl := showOrderId_injective he
      obtain rfl := Option.some.inj hi
      exact .inl hinfo
    · exact .inr ⟨hi, hold i o hi⟩

theorem submitLimit_reconciled (h : s.Reconciled) (expStr : String) (tif : TimeInForce)
    (body : AddOrderRequest) (hok : s.LimitSpares a tif body) :
    (s.submitLimit expStr a tif body).2.Reconciled := by
  have ha := submitLimit_advances h.grounded expStr a tif body
  rcases submitLimit_cases h.grounded.fresh expStr a tif body with
    ⟨x, he, hi⟩ | ⟨r, x, he, hr, hs⟩
  · rw [he]
    exact h.idle hi
  · obtain ⟨hspare, hrest⟩ := hok r hr
    obtain ⟨hrec, ho⟩ := acceptLimit_recorded (s := s) (x := x) (a := a) expStr body
      s.market.nextOrderId hs.filled.matched.positive
    rw [he] at ha ⊢
    have hm := hrec.market
    rw [← hm] at hs
    apply h.submitted ha hs hspare (.inr ⟨_, ?_, ho⟩)
    exact OrderInfo.accurate_ofMatch _ _ _ _ _ _ _ h.grounded.fresh hs
      (rested_quantity hrest)

theorem submitMarket_reconciled (h : s.Reconciled) (expStr : String) (body : MarketOrderRequest)
    (hok : s.MarketSpares a body) : (s.submitMarket expStr a body).2.Reconciled := by
  have ha := submitMarket_advances h.grounded expStr a body
  rcases submitMarket_cases h.grounded.fresh expStr a body with
    ⟨x, he, hi⟩ | ⟨r, x, he, hr, hs⟩
  · rw [he]
    exact h.idle hi
  · obtain ⟨hrec, ho⟩ := acceptMarket_recorded (s := s) (x := x) (a := a) expStr body.side
      hs.filled.matched.positive
    rw [he] at ha ⊢
    have hm := hrec.market
    rw [← hm] at hs
    exact h.submitted ha hs (hok r hr) (.inl ho)

end Submissions
section Cancels

omit [LawfulUpstream B] in
/-- What took order `id` off its book also untracked it. -/
theorem Reconciled.cancelled (h : s.Reconciled) (ha : Advances s s')
    (hc : Cancelled s.market s'.market a id) (hk : s.SameKey id key)
    (ho : s'.orders = s.orders.erase key) : s'.Reconciled := by
  apply h.next ha
  intro i o hi
  rw [ho, Table.lookup_erase_eq] at hi
  split_ifs at hi with he
  have hne : i ≠ id := by
    rintro rfl
    rcases hk with hnone | hkey
    · rw [hnone] at hi
      cases hi
    · exact he hkey.symm
  exact .inr ⟨hi, hc.unmoved hne⟩

theorem cancelAt_reconciled (h : s.Reconciled) (hp : parseOrderId B key = some id)
    (hok : s.CancelSpares a id key) : (s.cancelAt a id key).2.Reconciled := by
  have ha := cancelAt_advances h.grounded a id key
  unfold CancelSpares at hok
  rcases cancelAt_cases (s := s) a id key with
    ⟨e, x, he, -, hi⟩ | ⟨x, he, hres, hc⟩ | ⟨x, he, hres, hi, -⟩
  · rw [he]
    exact h.idle hi
  · rw [hres] at hok
    have hrep := publishCancelled_reported (s := (s.withMarket x).untrack key) a
      (s.market.getOrder a id)
    rw [he] at ha ⊢
    have hm : (((s.withMarket x).untrack key).publishCancelled a
        (s.market.getOrder a id)).market = x := hrep.market
    exact h.cancelled ha (by rwa [hm]) hok hrep.orders
  · rw [hres] at hok
    rw [he] at ha ⊢
    apply h.next ha
    intro i o ho
    simp only [Table.lookup_modify] at ho
    split_ifs at ho with hk
    · obtain ⟨o', ho', rfl⟩ := Option.map_eq_some_iff.mp ho
      have hid : i = id := by
        rw [← hk, LawfulUpstream.parse_show] at hp
        exact Option.some.inj hp
      have hzero : s.market.remaining id = 0 := hok (by rw [ho']; rfl)
      refine .inl ⟨fun hst => (by cases hst), fun _ => ?_⟩
      show x.remaining i = 0
      rw [hid, hi.toQuiet.remaining, hzero]
    · exact .inr ⟨ho, hi.toQuiet.unmoved i⟩

theorem placeReplacement_reconciled (h : s.Reconciled) (expStr : String) (side : Side)
    (price q : ℕ)
    (hok : ∀ r, (s.market.newOrderId.2.addLimitOrderWithTif a s.market.nextOrderId side price q
      .gtc).1 = .ok r → r.trades = []) :
    (s.placeReplacement expStr key a side price q).2.Reconciled := by
  rcases placeReplacement_cases h.grounded.fresh expStr key a side price q with
    ⟨x, he, hi⟩ | ⟨r, x, he, hr, hs⟩
  · rw [he]
    exact h.idle hi
  · have hnone := hok r hr
    have hspare : s.Spares r := by
      intro t ht
      rw [hnone] at ht
      cases ht
    rw [he]
    apply h.submitted _ hs hspare (.inr ⟨_, ?_, rfl⟩)
    · exact .submitted h.grounded hs rfl rfl rfl
        (.inr ⟨_, OrderInfo.ofMatch_names _ _ _ _ _ _ _ _ _, rfl⟩)
    · exact OrderInfo.accurate_untouched _ _ _ _ _ _ _ h.grounded.fresh hs
        (rested_quantity (.inl rfl)) hnone

theorem replaceOrder_reconciled (h : s.Reconciled) (expStr : String) (o : RestingOrder)
    (price q : ℕ) (hok : s.ReplaceSpares a id key o.side price q) :
    (s.replaceOrder expStr key a id o price q).2.Reconciled := by
  obtain ⟨hkey, hfree⟩ := hok
  rcases replaceOrder_cases (s := s) expStr key a id o price q with
    ⟨x, he, hi⟩ | ⟨x, he, hres, hc⟩
  · rw [he]
    exact h.idle hi
  · rw [he]
    have ha : Advances s (((s.withMarket x).untrack key).publishLevelDelta a o.side o.price) :=
      ((Advances.withMarket (hc.toRemoved.shrunk.wanes h.grounded.fresh)).untrack key).reported
        (publishLevelDelta_reported a o.side o.price)
    apply placeReplacement_reconciled (h.cancelled ha hc hkey rfl)
    intro r hr
    apply hfree r
    rw [hres]
    have hn : x.nextOrderId = s.market.nextOrderId := hc.nextOrderId
    rw [← hn]
    exact hr

/-- A cancel through the stored strings of a record, under the key of an order. -/
theorem cancelTracked_reconciled (h : s.Reconciled) (o : OrderInfo)
    (hk : ∃ i, key = showOrderId B i) : (s.cancelTracked key o).2.Reconciled := by
  have ha := cancelTracked_advances h.grounded key o
  rcases cancelTracked_cases (s := s) key o with ⟨e, x, he, hi, -⟩ | ⟨a, id, x, he, ht, hc⟩
  · rw [he]
    exact h.idle hi
  · have hkey : key = showOrderId B id := by
      obtain ⟨i, rfl⟩ := hk
      rw [trackedTarget_id ht]
    rw [he] at ha ⊢
    exact h.cancelled ha hc (.inr hkey) rfl

end Cancels
section BulkSubmit
variable {items : List BulkOrderItem} {accepted : List AcceptedBulkOrder} {atomic : Bool}

/-- The record of an accepted order is exact and says what executed on submit. -/
def Captured (s : AppState B F) (o : AcceptedBulkOrder) : Prop :=
  ∃ info, s.orders.lookup (showOrderId B o.orderId) = some info ∧
    info.filledQuantity = o.filledQuantity ∧ info.Exact s.market o.orderId

/-- A batch that began in state `s` and spared its tracked orders. -/
structure Batch.Sparing (s : AppState B F) (b : Batch B F) : Prop where
  reconciled : b.state.Reconciled
  old : ∀ i, i < s.market.nextOrderId →
    b.state.orders.lookup (showOrderId B i) = s.orders.lookup (showOrderId B i)
  captured : ∀ o ∈ b.accepted, b.state.Captured o

theorem Batch.Sparing.accept {b b' : Batch B F} {side : Side} {limit : Option ℕ} {q n : ℕ}
    {left : Option RestingOrder} {info : OrderInfo} (h : b.Sparing s)
    (hp : b.Placed s.market items) (ha : Advances b.state b'.state)
    (hs : Submitted b.state.market b'.state.market a side limit q r left) (hfree : s.Spares r)
    (hold : ∀ t ∈ r.trades, t.makerOrderId < s.market.nextOrderId)
    (hacc : b'.accepted = b.accepted ++ [⟨n, b.state.market.nextOrderId, r.executedQuantity⟩])
    (ho : b'.state.orders =
      b.state.orders.insert (showOrderId B b.state.market.nextOrderId) info)
    (hinfo : info.Accurate b'.state.market b.state.market.nextOrderId)
    (hexact : info.Exact b'.state.market b.state.market.nextOrderId)
    (hfill : info.filledQuantity = r.executedQuantity) : b'.Sparing s := by
  have hspare : b.state.Spares r := by
    intro t ht
    rw [h.old _ (hold t ht)]
    exact hfree t ht
  have hkey : ∀ {i}, i < b.state.market.nextOrderId →
      b'.state.orders.lookup (showOrderId B i) = b.state.orders.lookup (showOrderId B i) := by
    intro i hi
    rw [ho, Table.lookup_insert_eq, if_neg]
    intro hk
    exact Nat.ne_of_lt hi (showOrderId_injective hk)
  constructor
  · exact h.reconciled.submitted ha hs hspare (.inr ⟨info, hinfo, ho⟩)
  · intro i hi
    rw [hkey (Nat.lt_of_lt_of_le hi hp.next)]
    exact h.old i hi
  · intro o hmem
    rw [hacc] at hmem
    rcases List.mem_append.mp hmem with hmem | hmem
    · obtain ⟨info', hinfo', hfill', hexact'⟩ := h.captured o hmem
      have hlt := hp.issued hmem
      have hu := hs.unmoved (h.reconciled.homed _) (Nat.ne_of_lt hlt) (hspare.makerFilled hinfo')
      exact ⟨info', (hkey hlt).trans hinfo', hfill', hexact'.unmoved hu⟩
    · obtain rfl := List.mem_singleton.mp hmem
      refine ⟨info, ?_, hfill, hexact⟩
      rw [ho, Table.lookup_insert_eq, if_pos rfl]

omit [LawfulUpstream B] in
theorem Batch.Sparing.fail {b b' : Batch B F} (h : b.Sparing s) (hi : Idle b.state.market x)
    (hs : b'.state = b.state.withMarket x) (hacc : b'.accepted = b.accepted) : b'.Sparing s := by
  constructor
  · rw [hs]
    exact h.reconciled.idle hi
  · rw [hs]
    exact h.old
  · rw [hs, hacc]
    intro o hmem
    obtain ⟨info, hinfo, hfill, hexact⟩ := h.captured o hmem
    exact ⟨info, hinfo, hfill, hexact.unmoved (hi.toQuiet.unmoved _)⟩

theorem submitAll_sparing (h : s.Reconciled)
    (hok : EachInTurn (fun done item =>
      (atomic = true → EachInTurn s.market.Accepts done) → s.ItemSpares done item) items) :
    (s.submitAll atomic items).Sparing s := by
  induction items using List.reverseRecOn with
  | nil => exact ⟨h, fun _ _ => rfl, fun o ho => by cases ho⟩
  | append_singleton items item ih =>
    obtain ⟨hinit, hlast⟩ := EachInTurn.concat_iff.mp hok
    have hb := ih hinit
    have hplaced := submitAll_placed h.grounded.fresh atomic items
    have ha := batchNext_advances atomic (s.submitAll atomic items) (item, items.length)
      hb.reconciled.grounded
    rw [submitAll_concat]
    cases hf : (s.submitAll atomic items).failed with
    | some f =>
      rw [Batch.next_failed hf]
      exact hb
    | none =>
      rcases Batch.next_cases hf atomic item items.length with ⟨a, r, hsome, he⟩ | ⟨e, hnone, he⟩
      · have hspare : s.ItemSpares items item := by
          apply hlast
          rintro rfl
          exact (submitAll_unfailed_iff s items).mp hf
        obtain ⟨hfree, hold⟩ := hspare a r (by rwa [← submitAll_market s atomic items hf])
        have hs := (placeItem_accepted hplaced.fresh hsome).2
        have hleft : ((rested (s.submitAll atomic items).state.market.nextOrderId item.side
            item.price .gtc r).map RestingOrder.visibleQuantity).getD 0 = r.remainingQuantity :=
          rested_quantity (.inl rfl)
        have hm : ((s.submitAll atomic items).next atomic (item, items.length)).state.market =
            ((s.submitAll atomic items).state.market.placeItem item).2 := by
          rw [he]
          exact acceptItem_market _ _
        rw [← hm] at hs
        apply hb.accept hplaced ha hs hfree hold
        · rw [he]
        · rw [he]
          exact acceptItem_orders _ _
        · exact OrderInfo.accurate_ofMatch _ _ _ _ _ _ _ hplaced.fresh hs hleft
        · exact OrderInfo.exact_ofMatch _ _ _ _ _ _ _ hplaced.fresh hs hleft
        · rfl
      · have hi := placeItem_refused hplaced.fresh hnone
        rw [he]
        split_ifs <;> exact hb.fail hi rfl rfl

omit [LawfulUpstream B] in
/-- What the rollback writes is accurate: the remainder is gone, or the record keeps its numbers. -/
theorem accurate_rolledBack {info : OrderInfo} {i : OrderId} {cleared : Bool}
    (hexact : info.Exact s.market i) (hgone : cleared = true → x.remaining i = 0)
    (hkept : cleared = false → Unmoved s.market x i) (now : ℕ) :
    (info.rolledBack info.filledQuantity cleared now).Accurate x i := by
  cases cleared with
  | true =>
    constructor
    · intro hw
      simp only [OrderInfo.rolledBack, if_true] at hw
      split_ifs at hw <;> cases hw
    · exact fun _ => hgone rfl
  | false =>
    have hnow := hexact.unmoved (hkept rfl)
    have htotal := hnow.total
    have hrem := hnow.remaining
    apply OrderInfo.Exact.accurate
    · constructor
      · show info.originalQuantity - min info.filledQuantity info.originalQuantity =
          x.remaining i
        omega
      · exact hnow.executed
      · exact hnow.fills
      · show info.filledQuantity + (info.originalQuantity -
          min info.filledQuantity info.originalQuantity) = info.originalQuantity
        omega
    · intro hst
      cases hst

/-- The cancel of a rollback moves at most the order it names. -/
theorem cancelBulkItemOrder_moves (h : s.Reconciled) (item : BulkOrderItem)
    (hloc : ∀ a, s.market.locate item.underlying item.expiration item.strike item.style = .ok a →
      s.market.home id = some a) :
    ∃ res s', s.cancelBulkItemOrder item id = (res, s') ∧ s'.orders = s.orders ∧
      s'.market.toCatalog = s.market.toCatalog ∧ s'.market.now = s.market.now ∧
      s'.market.home = s.market.home ∧ (∀ j, j ≠ id → Unmoved s.market s'.market j) ∧
      (res.toBool = true → s'.market.remaining id = 0) ∧
      (res.toBool = false → Unmoved s.market s'.market id) := by
  rcases cancelBulkItemOrder_cases (s := s) item id with
    ⟨res, x, he, hi, hcat, hgone⟩ | ⟨a, x, he, hl, hc⟩
  · refine ⟨res, _, he, rfl, hcat, hi.now, hi.home, fun j _ => hi.toQuiet.unmoved j,
      fun hok => ?_, fun _ => hi.toQuiet.unmoved id⟩
    obtain ⟨-, a, hl, hnone⟩ := hgone hok
    show x.remaining id = 0
    rw [hi.toQuiet.remaining, remaining_of_home (hloc a hl), hnone]
    rfl
  · refine ⟨_, _, he, rfl, hc.catalog, hc.now, hc.home, fun j hj => hc.unmoved hj, fun _ => ?_,
      fun hno => by cases hno⟩
    exact hc.toRemoved.remaining_self (h.homed id)

theorem rollbackOrder_reconciled (h : s.Reconciled) (item : BulkOrderItem)
    {o : AcceptedBulkOrder} (hcap : s.Captured o)
    (hloc : ∀ a, s.market.locate item.underlying item.expiration item.strike item.style = .ok a →
      s.market.home o.orderId = some a) :
    let s' := (s.rollbackOrder item o).2
    s'.Reconciled ∧ s'.market.toCatalog = s.market.toCatalog ∧ s'.market.now = s.market.now ∧
      s'.market.home = s.market.home ∧ ∀ o', o'.orderId ≠ o.orderId → s.Captured o' →
        s'.Captured o' := by
  intro s'
  obtain ⟨res, s1, he, horders, hcat, hnow, hhome, hothers, hgone, hkept⟩ :=
    cancelBulkItemOrder_moves h item hloc
  have hs' : s' = s1.reconcile o res := by
    show (s.rollbackOrder item o).2 = _
    unfold rollbackOrder
    rw [he]
  have hm : s'.market = s1.market := by
    rw [hs']
    unfold reconcile
    dsimp only
    split_ifs
    · rfl
    · cases res <;> rfl
  have hlookup : ∀ key, s'.orders.lookup key = if key = showOrderId B o.orderId then
      o.reconciled res s1.market.now (s.orders.lookup key) else s.orders.lookup key := by
    intro key
    rw [hs', reconcile_orders, horders]
  refine ⟨?_, by rw [hm]; exact hcat, by rw [hm]; exact hnow, by rw [hm]; exact hhome,
    fun o' hne hcap' => ?_⟩
  · apply h.next (rollbackOrder_advances h.grounded item o)
    intro i info' hi
    change s'.orders.lookup _ = _ at hi
    show info'.Accurate s'.market i ∨ _ ∧ Unmoved s.market s'.market i
    rw [hlookup] at hi
    rw [hm]
    split_ifs at hi with hk
    · obtain rfl := showOrderId_injective hk
      obtain ⟨info, hinfo, hfill, hexact⟩ := hcap
      rw [hinfo, AcceptedBulkOrder.reconciled, ← hfill] at hi
      split_ifs at hi with hpos hok
      · obtain rfl := Option.some.inj hi
        exact .inl (accurate_rolledBack hexact hgone hkept _)
      · obtain rfl := Option.some.inj hi
        exact .inr ⟨hinfo, hkept (by simpa using hok)⟩
    · refine .inr ⟨hi, hothers i fun hid => hk ?_⟩
      rw [hid]
  · obtain ⟨info, hinfo, hfill, hexact⟩ := hcap'
    refine ⟨info, ?_, hfill, ?_⟩
    · rw [hlookup, if_neg fun hk => hne (showOrderId_injective hk)]
      exact hinfo
    · rw [hm]
      exact hexact.unmoved (hothers _ hne)

theorem rollbackOrders_reconciled (acc : Outcomes × AppState B F) (h : acc.2.Reconciled)
    (hcap : ∀ o ∈ accepted, acc.2.Captured o)
    (hloc : ∀ o ∈ accepted, ∀ item, items[o.index]? = some item → ∀ a,
      acc.2.market.locate item.underlying item.expiration item.strike item.style = .ok a →
        acc.2.market.home o.orderId = some a)
    (hids : (accepted.map AcceptedBulkOrder.orderId).Nodup) :
    (accepted.foldl (rollbackNext items) acc).2.Reconciled := by
  induction accepted generalizing acc with
  | nil => exact h
  | cons o rest ih =>
    obtain ⟨hnot, hrest⟩ := List.nodup_cons.mp hids
    rw [List.foldl_cons]
    cases hitem : items[o.index]? with
    | none =>
      have hsame : rollbackNext items acc o = acc := by
        unfold rollbackNext
        rw [hitem]
      rw [hsame]
      exact ih acc h (fun o' ho' => hcap o' (List.mem_cons_of_mem o ho'))
        (fun o' ho' => hloc o' (List.mem_cons_of_mem o ho')) hrest
    | some item =>
      have hstep : (rollbackNext items acc o).2 = (acc.2.rollbackOrder item o).2 := by
        unfold rollbackNext
        rw [hitem]
      obtain ⟨hrec, hcat, hnow, hhome, hothers⟩ := rollbackOrder_reconciled h item
        (hcap o List.mem_cons_self) (hloc o List.mem_cons_self item hitem)
      rw [← hstep] at hrec hcat hnow hhome hothers
      apply ih _ hrec
      · intro o' ho'
        apply hothers o' _ (hcap o' (List.mem_cons_of_mem o ho'))
        intro hid
        exact hnot (List.mem_map.mpr ⟨o', ho', hid⟩)
      · intro o' ho' item' hitem' a hl
        rw [locate_congr hcat hnow] at hl
        rw [hhome]
        exact hloc o' (List.mem_cons_of_mem o ho') item' hitem' a hl
      · exact hrest

theorem bulkSubmitOrders_reconciled (h : s.Reconciled) (body : BulkOrderRequest)
    (hok : s.TrackingSafe (.bulkSubmitOrders body : Request F)) :
    (s.bulkSubmitOrders body).2.Reconciled := by
  have hb := submitAll_sparing h hok
  have hplaced := submitAll_placed h.grounded.fresh body.atomic body.orders
  unfold bulkSubmitOrders
  split_ifs
  · exact h
  · dsimp only
    unfold Batch.finish
    split
    · apply rollbackOrders_reconciled (∅, _) hb.reconciled hb.captured
      · intro o ho item hitem a hl
        obtain ⟨item', a', hitem', hl', -, hhome, -⟩ := hplaced.places o ho
        obtain rfl := Option.some.inj (hitem.symm.trans hitem')
        obtain rfl := Except.ok.inj (hl.symm.trans hl')
        exact hhome
      · exact hplaced.ids
    · exact hb.reconciled

end BulkSubmit
section Requests

theorem bulkCancelOrders_reconciled (h : s.Reconciled) (keys : List String) :
    (s.bulkCancelOrders keys).2.Reconciled := by
  apply bulkCancelOrders_keeps h.grounded h
  intro s' o key _ ho hg' h'
  obtain ⟨i, a, hk, -⟩ := hg'.tracked key o ho
  exact cancelTracked_reconciled h' o ⟨i, hk⟩

theorem cancelAllOrders_reconciled (h : s.Reconciled) (q : CancelAllQuery) :
    (s.cancelAllOrders q).2.Reconciled := by
  apply cancelAllOrders_keeps h.grounded h
  intro s' key o f _ hlookup _ _ h'
  obtain ⟨i, a, hk, -⟩ := h.grounded.tracked key o hlookup
  exact cancelTracked_reconciled h' o ⟨i, hk⟩

theorem tick_reconciled (h : s.Reconciled) (ms : ℕ) (hok : s.TickSpares ms) :
    (s.withMarket (s.market.tick ms)).Reconciled := by
  have hs := tick_shrunk s.market ms
  apply h.next (.withMarket (hs.wanes h.grounded.fresh))
  intro i o ho
  refine .inr ⟨ho, ?_, hs.executed i⟩
  obtain ⟨a, ha⟩ := h.grounded.home ho
  have hget : (s.market.tick ms).getOrder a i = s.market.getOrder a i := by
    rcases LawfulUpstream.lapse_getOrder (s.market.now + ms) (s.market.books a) i with
      hsame | ⟨-, o', t, ho', ht, hle⟩
    · exact hsame
    · have hnone := hok a i o' t ho' ht hle
      have hsome : s.orders.lookup (showOrderId B i) = some o := ho
      rw [hnone] at hsome
      cases hsome
  show (s.market.tick ms).remaining i = s.market.remaining i
  rw [remaining_of_home ha, remaining_of_home (x := s.market.tick ms) ha, hget]

theorem Reconciled.step [F64 F] (h : s.Reconciled) (i : Request F) (hok : s.TrackingSafe i) :
    (s.step i).Reconciled := by
  cases i with
  | addOrder p body =>
    show (s.addOrder p body).2.Reconciled
    unfold addOrder
    split
    · exact h
    · exact submitLimit_reconciled h _ _ _ (hok _ _ ‹_›)
  | submitMarketOrder p body =>
    show (s.submitMarketOrder p body).2.Reconciled
    unfold submitMarketOrder
    split
    · exact h
    · exact submitMarket_reconciled h _ _ (hok _ ‹_›)
  | cancelOrder p key =>
    show (s.cancelOrder p key).2.Reconciled
    unfold cancelOrder
    split
    · exact h
    · rename_i ht
      exact cancelAt_reconciled h (target_locate ht).2 (hok _ _ ht)
  | modifyOrder p key body =>
    show (s.modifyOrder p key body).2.Reconciled
    unfold modifyOrder
    split
    · exact h
    · exact replaceOrder_reconciled h _ _ _ _ (hok _ _ _ _ _ ‹_›)
  | bulkSubmitOrders body => exact bulkSubmitOrders_reconciled h body hok
  | bulkCancelOrders keys => exact bulkCancelOrders_reconciled h keys
  | cancelAllOrders q => exact cancelAllOrders_reconciled h q
  | tick ms => exact tick_reconciled h ms hok
  | _ => cases hok

end Requests
section Runs

/-- What a record says of order `i` is so on the book `a` that it names. -/
structure AgreesAt (s : AppState B F) (o : OrderInfo) (i : OrderId) (a : OptionAddr) : Prop where
  names : o.Addresses B a
  nowhereElse : ∀ c, c ≠ a → s.market.getOrder c i = none
  working : o.status.working = true →
    o.remainingQuantity = ((s.market.getOrder a i).map RestingOrder.visibleQuantity).getD 0 ∧
    o.filledQuantity = s.market.executed i ∧
    o.filledQuantity = (o.fills.map OrderFillInfo.quantity).sum ∧
    o.filledQuantity + o.remainingQuantity = o.originalQuantity
  filled : o.status = .filled → ∀ c, s.market.getOrder c i = none

/-- Every tracked order is what its record says. -/
def TrackingAgrees (s : AppState B F) : Prop :=
  ∀ key o, s.orders.lookup key = some o → ∃ i a, key = showOrderId B i ∧ s.AgreesAt o i a

theorem Reconciled.trackingAgrees (h : s.Reconciled) (hd : s.Addressed) : s.TrackingAgrees := by
  intro key o ho
  obtain ⟨i, a, rfl, hhome, haddr⟩ := hd key o ho
  have hacc := h.accurate i o ho
  have hrem := remaining_of_home hhome
  refine ⟨i, a, rfl, haddr, fun c hc => ?_, fun hw => ?_, fun hf c => ?_⟩
  · cases hr : s.market.getOrder c i with
    | none => rfl
    | some r => exact absurd (Option.some.inj ((h.homed i hr).symm.trans hhome)) hc
  · have hexact := hacc.working hw
    exact ⟨by rw [hexact.remaining, hrem], hexact.executed, hexact.fills.symm, hexact.total⟩
  · have hzero := hacc.filled hf
    cases hr : s.market.getOrder c i with
    | none => rfl
    | some r =>
      have hpos := LawfulUpstream.getOrder_pos _ _ _ hr
      rw [(h.homed i).remaining_eq hr] at hzero
      omega

variable [F64 F]

omit [LawfulUpstream B] in
theorem Start.accurate (h : s.Start) : s.Tracks fun x i o => o.Accurate x i := by
  obtain ⟨quoter, rfl⟩ := h
  intro i o ho
  have hnone : (∅ : Table String OrderInfo).lookup (showOrderId B i) = some o := ho
  simp at hnone

end Runs

section Reference

/-- The requests that submit, cancel or modify orders. -/
def Orderly : Request F → Bool
  | .addOrder _ _ | .submitMarketOrder _ _ | .cancelOrder _ _ | .modifyOrder _ _ _
  | .bulkSubmitOrders _ | .bulkCancelOrders _ | .cancelAllOrders _ => true
  | _ => false

/-- A sell, and a smaller buy that trades with it. -/
def partlyTaken : List (Request ℚ) :=
  [.addOrder ⟨"BTC", "30", 10000, "call"⟩ ⟨.sell, 100, 10, none, none⟩,
    .addOrder ⟨"BTC", "30", 10000, "call"⟩ ⟨.buy, 100, 4, none, none⟩]

/-- A sell and a buy that both rest. -/
def bothRest : List (Request ℚ) :=
  [.addOrder ⟨"BTC", "30", 10000, "call"⟩ ⟨.sell, 100, 10, none, none⟩,
    .addOrder ⟨"BTC", "30", 10000, "call"⟩ ⟨.buy, 90, 4, none, none⟩]

end Reference
end AppState
end OptionChainBackend
