import OptionChainBackend.Api.Parts
import OptionChainBackend.Foundation.Listing
import OptionChainBackend.Foundation.Paging

/-!
The list of orders, page by page. The pages are cut from the orders as they are at each request, so
what comes in between two requests shifts them.
-/
namespace OptionChainBackend
open Foundation Upstream MarketMaker Exchange

structure OrderListQuery where
  underlying : Option String
  status : Option String
  side : Option String
  limit : ℕ
  offset : ℕ
  deriving DecidableEq, Repr

/-- The page size of a query that names none. -/
def defaultLimit : ℕ := 100

structure OrderStatusResponse where
  orderId : String
  symbol : String
  side : Side
  price : ℕ
  originalQuantity : ℕ
  remainingQuantity : ℕ
  filledQuantity : ℕ
  status : OrderStatus
  timeInForce : OrderTimeInForce
  createdAt : String
  updatedAt : String
  fills : List OrderFillInfo
  deriving DecidableEq, Repr

structure OrderListResponse where
  orders : List OrderStatusResponse
  total : ℕ
  limit : ℕ
  offset : ℕ
  deriving DecidableEq, Repr

/-- The filters of a query, read. -/
structure OrderFilter where
  underlying : Option String
  status : Option OrderStatus
  side : Option Side
  deriving DecidableEq, Repr

/-- `OrderStatus::from_str`. -/
def parseOrderStatus (text : String) : Except String OrderStatus :=
  if lowercase text = "pending" then .ok .pending
  else if lowercase text = "active" then .ok .active
  else if lowercase text = "partial" then .ok .partialFill
  else if lowercase text = "filled" then .ok .filled
  else if lowercase text = "canceled" ∨ lowercase text = "cancelled" then .ok .canceled
  else .error s!"Invalid order status: {text}"

def parseStatusFilter : Option String → Except ApiError (Option OrderStatus)
  | none => .ok none
  | some text =>
    match parseOrderStatus text with
    | .ok status => .ok (some status)
    | .error e => .error (.invalidRequest e)

namespace OrderListQuery

def filter (q : OrderListQuery) : Except ApiError OrderFilter := do
  let status ← parseStatusFilter q.status
  let side ← AppState.parseSideFilter q.side
  return ⟨q.underlying, status, side⟩

end OrderListQuery

def OrderFilter.keeps (f : OrderFilter) (o : OrderInfo) : Bool :=
  f.underlying.all (o.underlying = ·) && f.status.all (o.status = ·) && f.side.all (o.side = ·)

section Handlers
variable (rfc3339 : ℕ → Option String)

/-- A time in milliseconds as text; nothing when it is beyond `i64` or beyond the dates. -/
def showMillis (ms : ℕ) : String := if ms < 2 ^ 63 then (rfc3339 ms).getD "" else ""

def OrderInfo.response (o : OrderInfo) : OrderStatusResponse :=
  ⟨o.orderId, o.symbol, o.side, o.price, o.originalQuantity, o.remainingQuantity, o.filledQuantity,
    o.status, o.timeInForce, showMillis rfc3339 o.createdAtMs, showMillis rfc3339 o.updatedAtMs,
    o.fills⟩

/-- The orders a filter keeps, the newest first. -/
def selected (f : OrderFilter) (orders : List OrderInfo) : List OrderInfo :=
  sortDescending OrderInfo.createdAtMs (orders.filter f.keeps)

/-- `list_orders`, over the tracked orders in the order the iteration meets them. -/
def listOrders (orders : List OrderInfo) (q : OrderListQuery) :
    Except ApiError OrderListResponse := do
  let f ← q.filter
  let filtered := selected f orders
  return ⟨(page q.offset q.limit filtered).map (OrderInfo.response rfc3339), filtered.length,
    q.limit, q.offset⟩

variable {B F : Type}

def AppState.getOrderStatus (s : AppState B F) (orderId : String) :
    Except ApiError OrderStatusResponse :=
  match s.orders.lookup orderId with
  | some o => .ok (o.response rfc3339)
  | none => .error (.notFound ("Order not found: " ++ orderId))

end Handlers

namespace AppState
variable {B F : Type} [Upstream B] [LawfulUpstream B] {s s' : AppState B F}

section Tracked

/-- What insertions under an order's own id, removals and updates keep of the tracked orders is kept
by whatever the handlers do. -/
theorem orders_callsKeep {P : Table String OrderInfo → Prop}
    (hinsert : ∀ t key o, o.orderId = key → P t → P (t.insert key o))
    (herase : ∀ t key, P t → P (t.erase key))
    (hmodify : ∀ t key f, (∀ o, (f o).orderId = o.orderId) → P t → P (t.modify key f)) :
    CallsKeep fun s : AppState B F => P s.orders := by
  constructor
  case limit =>
    intro s p body a tif hg h _
    rcases submitLimit_cases hg.fresh p.expStr a tif body with ⟨x, he, -⟩ | ⟨r, x, he, -, hs⟩
    · rw [he]
      exact h
    · rw [he, (acceptLimit_recorded (s := s) (x := x) (a := a) p.expStr body s.market.nextOrderId
        hs.filled.matched.positive).2]
      exact hinsert _ _ _ rfl h
  case market =>
    intro s p body a hg h _
    rcases submitMarket_cases hg.fresh p.expStr a body with ⟨x, he, -⟩ | ⟨r, x, he, -, hs⟩
    · rw [he]
      exact h
    · rw [he, (acceptMarket_recorded (s := s) (x := x) (a := a) p.expStr body.side
        hs.filled.matched.positive).2]
      exact h
  case item =>
    intro s item hg h
    rcases submitSingleOrder_cases s item with ⟨e, -, he⟩ | ⟨a, r, -, he⟩
    · rw [he]
      exact h
    · rw [he, acceptItem_orders]
      exact hinsert _ _ _ rfl h
  case delete =>
    intro s p key a id _ h _
    rcases cancelAt_cases (s := s) a id key with ⟨e, x, he, -⟩ | ⟨x, he, -⟩ | ⟨x, he, -⟩
    · rw [he]
      exact h
    · rw [he, (publishCancelled_reported a _).orders]
      exact herase _ _ h
    · rw [he]
      exact hmodify _ _ _ (fun _ => rfl) h
  case replace =>
    intro s p key a id o price q hg h _ _
    rcases s.replaceOrder_cases p.expStr key a id o price q with ⟨x, he, -⟩ | ⟨x, he, -, hc⟩
    · rw [he]
      exact h
    · rw [he]
      rcases placeReplacement_cases
        (s := ((s.withMarket x).untrack key).publishLevelDelta a o.side o.price)
        (hc.toRemoved.shrunk.wanes hg.fresh).fresh p.expStr key a o.side price q with
        ⟨x', he', -⟩ | ⟨r, x', he', -⟩
      · rw [he']
        exact herase _ _ h
      · rw [he']
        exact hinsert _ _ _ rfl (herase _ _ h)
  case cancel =>
    intro s key o _ h
    rcases cancelTracked_cases (s := s) key o with ⟨e, x, he, -⟩ | ⟨a, id, x, he, -⟩
    · rw [he]
      exact h
    · rw [he]
      exact herase _ _ h
  case rollback =>
    intro s item o _ h
    have hcancel : P (s.cancelBulkItemOrder item o.orderId).2.orders := by
      rcases cancelBulkItemOrder_cases (s := s) item o.orderId with ⟨res, x, he, -⟩ | ⟨a, x, he, -⟩ <;>
        rw [he] <;> exact h
    unfold rollbackOrder
    dsimp only
    unfold reconcile
    dsimp only
    split_ifs
    · refine hmodify _ _ _ (fun o' => ?_) hcancel
      unfold OrderInfo.rolledBack
      split_ifs <;> rfl
    · split
      · exact herase _ _ hcancel
      · exact hcancel
  case untrack => exact fun key _ h => herase _ key h
  case save => exact fun _ _ h => h
  case restore =>
    intro s id _ h
    unfold restoreSnapshot
    split <;> exact h

omit [LawfulUpstream B] in
theorem orders_restKeeps [F64 F] {P : Table String OrderInfo → Prop} :
    RestKeeps fun s : AppState B F => P s.orders where
  idle _ _ h _ _ := h
  remove _ _ h := h
  engine _ _ h := h
  tick _ _ h := h

/-- An order is tracked under its id. -/
def Named (t : Table String OrderInfo) : Prop := t.All fun key o => o.orderId = key

theorem named_callsKeep : CallsKeep fun s : AppState B F => Named s.orders := by
  apply orders_callsKeep (P := Named)
  · exact fun t key o hkey ht => ht.insert hkey
  · exact fun t key ht => Table.All.erase fun j o _ hj => ht j o hj
  · intro t key f hf ht
    exact Table.All.modify (fun j o _ hj => ht j o hj) fun o ho => (hf o).trans (ht key o ho)

theorem reaches_named [F64 F] {ok : AppState B F → Request F → Prop}
    (h : Reaches Start step ok s) : s.Grounded ∧ Named s.orders := by
  refine named_callsKeep.reaches (orders_restKeeps (P := Named)) (fun s hs => ?_) h
  obtain ⟨quoter, rfl⟩ := hs
  exact Table.All.empty

omit [Upstream B] [LawfulUpstream B] in
/-- The tracked orders in some order of the map. -/
def storedOrders (s : AppState B F) : List OrderInfo := s.orders.entries.map (·.2)

omit [Upstream B] [LawfulUpstream B] in
theorem Named.lookup_iff (h : Named s.orders) {o : OrderInfo} :
    o ∈ s.storedOrders ↔ s.orders.lookup o.orderId = some o := by
  constructor
  · intro ho
    obtain ⟨⟨key, o⟩, hmem, rfl⟩ := List.mem_map.mp ho
    have hlookup : s.orders.lookup key = some o := AList.mem_lookup_iff.mpr hmem
    dsimp only
    rwa [h key o hlookup]
  · exact fun hlookup => List.mem_map.mpr ⟨_, AList.mem_lookup_iff.mp hlookup, rfl⟩

omit [Upstream B] [LawfulUpstream B] in
theorem Named.nodup (h : Named s.orders) : s.storedOrders.Nodup := by
  have hkeys : s.storedOrders.map OrderInfo.orderId = s.orders.keys := by
    unfold storedOrders
    rw [List.map_map]
    apply List.map_congr_left
    rintro ⟨key, o⟩ hmem
    exact h key o (AList.mem_lookup_iff.mpr hmem)
  exact List.Nodup.of_map _ (hkeys ▸ s.orders.keys_nodup)

/-- Whatever is tracked stays so, as it is. -/
def Extends (s s' : AppState B F) : Prop :=
  ∀ key o, s.orders.lookup key = some o → s'.orders.lookup key = some o

theorem Grounded.untracked (hg : s.Grounded) :
    s.orders.lookup (showOrderId B s.market.nextOrderId) = none := by
  cases hlookup : s.orders.lookup (showOrderId B s.market.nextOrderId) with
  | none => rfl
  | some o =>
    obtain ⟨i, a, hkey, -, hhome, -⟩ := hg.tracked _ o hlookup
    have hlt := hg.fresh.home hhome
    rw [← showOrderId_injective hkey] at hlt
    exact absurd hlt (lt_irrefl _)

theorem Grounded.extends_insert (hg : s.Grounded) {info : OrderInfo}
    (ho : s'.orders = s.orders.insert (showOrderId B s.market.nextOrderId) info) :
    Extends s s' := by
  intro key o hlookup
  rw [ho, Table.lookup_insert_eq, if_neg]
  · exact hlookup
  · rintro rfl
    rw [hg.untracked] at hlookup
    cases hlookup

end Tracked

section Adding
variable [F64 F]

/-- The requests that only add orders, and those that touch none. -/
def Adds : Request F → Prop
  | .addOrder .. | .submitMarketOrder .. | .createSnapshot .. | .restoreSnapshot ..
  | .createUnderlying .. | .createExpiration .. | .createStrike .. | .deleteUnderlying ..
  | .engine .. | .tick .. => True
  | .bulkSubmitOrders body => body.atomic = false
  | .cancelOrder .. | .modifyOrder .. | .bulkCancelOrders .. | .cancelAllOrders ..
  | .cleanupOldOrders .. => False

omit [LawfulUpstream B] [F64 F] in
theorem submitAll_failed (s : AppState B F) (items : List BulkOrderItem) :
    (s.submitAll false items).failed = none := by
  unfold submitAll
  apply List.foldlRecOn (motive := fun b : Batch B F => b.failed = none)
  · rfl
  · intro b hb e _
    unfold Batch.next
    rw [hb]
    dsimp only
    split <;> rfl

theorem step_extends (hg : s.Grounded) {r : Request F} (hr : Adds r) : Extends s (s.step r) := by
  cases r with
  | addOrder p body =>
    change Extends s (s.addOrder p body).2
    unfold addOrder
    split
    · exact fun _ _ h => h
    · rename_i a tif _
      rcases submitLimit_cases hg.fresh p.expStr a tif body with ⟨x, he, -⟩ | ⟨r, x, he, -, hs⟩
      · rw [he]
        exact fun _ _ h => h
      · rw [he]
        exact hg.extends_insert (acceptLimit_recorded (s := s) (x := x) (a := a) p.expStr body
          s.market.nextOrderId hs.filled.matched.positive).2
  | submitMarketOrder p body =>
    change Extends s (s.submitMarketOrder p body).2
    unfold submitMarketOrder
    split
    · exact fun _ _ h => h
    · rename_i a _
      rcases submitMarket_cases hg.fresh p.expStr a body with ⟨x, he, -⟩ | ⟨r, x, he, -, hs⟩
      · rw [he]
        exact fun _ _ h => h
      · intro key o h
        rw [he, (acceptMarket_recorded (s := s) (x := x) (a := a) p.expStr body.side
          hs.filled.matched.positive).2]
        exact h
  | bulkSubmitOrders body =>
    have hall : Extends s (s.submitAll body.atomic body.orders).state := by
      refine submitAll_keeps (P := Extends s) hg (fun _ _ h => h) body.atomic fun {s'} item _ hg' h => ?_
      rcases submitSingleOrder_cases s' item with ⟨e, -, he⟩ | ⟨a, r, -, he⟩
      · rw [he]
        exact h
      · rw [he]
        exact fun key o hkey => hg'.extends_insert (acceptItem_orders _ _) key o (h key o hkey)
    change Extends s (s.bulkSubmitOrders body).2
    unfold bulkSubmitOrders
    split_ifs
    · exact fun _ _ h => h
    · have hatomic : body.atomic = false := hr
      unfold Batch.finish
      rw [hatomic, submitAll_failed, ← hatomic]
      exact hall
  | restoreSnapshot id => 
    intro key o h
    change (s.restoreSnapshot id).2.orders.lookup key = some o
    unfold restoreSnapshot
    split <;> exact h
  | createExpiration u expStr =>
    intro key o h
    change (s.createExpiration u expStr).2.orders.lookup key = some o
    unfold createExpiration
    split <;> exact h
  | createStrike u expStr strike =>
    intro key o h
    change (s.createStrike u expStr strike).2.orders.lookup key = some o
    unfold createStrike
    split <;> exact h
  | deleteUnderlying u =>
    intro key o h
    change (s.deleteUnderlying u).2.orders.lookup key = some o
    unfold deleteUnderlying
    split_ifs <;> exact h
  | createSnapshot _ => exact fun _ _ h => h
  | createUnderlying _ => exact fun _ _ h => h
  | engine _ => exact fun _ _ h => h
  | tick _ => exact fun _ _ h => h
  | cancelOrder _ _ => exact hr.elim
  | modifyOrder _ _ _ => exact hr.elim
  | bulkCancelOrders _ => exact hr.elim
  | cancelAllOrders _ => exact hr.elim
  | cleanupOldOrders _ => exact hr.elim

/-- A client asks for one page after the other, while others may add orders. -/
structure Browses (rfc3339 : ℕ → Option String) (q : OrderListQuery) (s : ℕ → AppState B F)
    (between : ℕ → List (Request F)) (met : ℕ → List OrderInfo) (resp : ℕ → OrderListResponse) :
    Prop where
  runs : ∀ k, s (k + 1) = (between k).foldl step (s k)
  adds : ∀ k, ∀ r ∈ between k, Adds r
  meets : ∀ k, (met k).Perm (s k).storedOrders
  answers : ∀ k, listOrders rfc3339 (met k) { q with offset := k * q.limit } = .ok (resp k)

variable {rfc3339 : ℕ → Option String} {q : OrderListQuery} {t : ℕ → AppState B F}
  {between : ℕ → List (Request F)} {met : ℕ → List OrderInfo} {resp : ℕ → OrderListResponse}

/-- A run of additions keeps what is tracked. -/
theorem foldl_extends {rs : List (Request F)} (hrs : ∀ r ∈ rs, Adds r) (hg : s.Grounded)
    (hn : Named s.orders) : (rs.foldl step s).Grounded ∧ Named (rs.foldl step s).orders ∧
      Extends s (rs.foldl step s) := by
  induction rs generalizing s with
  | nil => exact ⟨hg, hn, fun _ _ h => h⟩
  | cons r rs ih =>
    have hnext := named_callsKeep.step (orders_restKeeps (P := Named)) hg hn r
    obtain ⟨hg', hn', hextends⟩ := ih (fun r' hr' => hrs r' (List.mem_cons_of_mem _ hr')) (hg.step r)
      hnext
    exact ⟨hg', hn', fun key o ho => hextends key o
      (step_extends hg (hrs r List.mem_cons_self) key o ho)⟩

theorem Browses.named (hb : Browses rfc3339 q t between met resp) (h : (t 0).Grounded)
    (hn : Named (t 0).orders) (k : ℕ) : (t k).Grounded ∧ Named (t k).orders := by
  induction k with
  | zero => exact ⟨h, hn⟩
  | succ k ih =>
    have hnext := foldl_extends (hb.adds k) ih.1 ih.2
    rw [hb.runs k]
    exact ⟨hnext.1, hnext.2.1⟩

omit [LawfulUpstream B] in
theorem Browses.orders_eq (hb : Browses rfc3339 q t between met resp) {f : OrderFilter}
    (hf : q.filter = .ok f) (k : ℕ) :
    (resp k).orders = (page (k * q.limit) q.limit (selected f (met k))).map (·.response rfc3339) ∧
      (resp k).total = (selected f (met k)).length := by
  have hanswer := hb.answers k
  unfold listOrders at hanswer
  rw [show OrderListQuery.filter { q with offset := k * q.limit } = .ok f from hf] at hanswer
  obtain hresp := Except.ok.inj hanswer
  rw [← hresp]
  exact ⟨rfl, rfl⟩

/-- Whoever asks for page after page until one is empty has seen every order that matched when the
first was asked for and shares its time of creation with no other one, whatever was submitted
meanwhile. When nothing happens in between the pages hold every matching order just once. -/
theorem orders_paged {ok : AppState B F → Request F → Prop} (h : Reaches Start step ok (t 0))
    (hb : Browses rfc3339 q t between met resp) {f : OrderFilter} (hf : q.filter = .ok f)
    (hlimit : 0 < q.limit) {n : ℕ} (hend : (resp n).orders = []) :
    (∀ o ∈ (t 0).storedOrders, f.keeps o → (∀ k, ∀ o' ∈ (t k).storedOrders, f.keeps o' →
        o'.createdAtMs = o.createdAtMs → o' = o) →
      ∃ k < n, o.response rfc3339 ∈ (resp k).orders) ∧
    ((∀ k, met k = met 0) → ((List.range n).flatMap fun k => (resp k).orders).Perm
      (((t 0).storedOrders.filter f.keeps).map (·.response rfc3339))) ∧
    ∀ k, (resp k).total = ((t k).storedOrders.filter f.keeps).length := by
  obtain ⟨hg, hn⟩ := reaches_named h
  have hnamed := hb.named hg hn
  have hmem : ∀ k o, o ∈ selected f (met k) ↔ o ∈ (t k).storedOrders ∧ f.keeps o = true := by
    intro k o
    unfold selected
    rw [(sortDescending_perm _ _).mem_iff, List.mem_filter, (hb.meets k).mem_iff]
  have hlast : page (n * q.limit) q.limit (selected f (met n)) = [] := by
    have hnil := (hb.orders_eq hf n).1.symm.trans hend
    exact List.map_eq_nil_iff.mp hnil
  have hselected : ∀ k, (selected f (met k)).Perm ((t k).storedOrders.filter f.keeps) := fun k =>
    (sortDescending_perm _ _).trans ((hb.meets k).filter _)
  refine ⟨fun o ho hkeeps halone => ?_, fun hstill => ?_, fun k => ?_⟩
  · have hgrow : ∀ k, selected f (met k) ⊆ selected f (met (k + 1)) := by
      intro k o' ho'
      obtain ⟨hstored, hkeep⟩ := (hmem k o').mp ho'
      obtain ⟨-, -, hextends⟩ := foldl_extends (hb.adds k) (hnamed k).1 (hnamed k).2
      have hlookup := hextends _ _ ((hnamed k).2.lookup_iff.mp hstored)
      rw [← hb.runs k] at hlookup
      exact (hmem (k + 1) o').mpr ⟨(hnamed (k + 1)).2.lookup_iff.mpr hlookup, hkeep⟩
    have hsorted : ∀ k, (selected f (met k)).Pairwise fun a b => b.createdAtMs ≤ a.createdAtMs :=
      fun k => sortDescending_pairwise _ _
    have hnodup : ∀ k, (selected f (met k)).Nodup := fun k =>
      (hselected k).nodup_iff.mpr ((hnamed k).2.nodup.filter _)
    have hunique : ∀ k, ∀ o' ∈ selected f (met k), o'.createdAtMs = o.createdAtMs → o' = o := by
      intro k o' ho' hcreated
      obtain ⟨hstored, hkeep⟩ := (hmem k o').mp ho'
      exact halone k o' hstored hkeep hcreated
    obtain ⟨k, hk, hpage⟩ := exists_mem_page hsorted hnodup hgrow ((hmem 0 o).mpr ⟨ho, hkeeps⟩)
      hunique hlimit hlast
    refine ⟨k, hk, ?_⟩
    rw [(hb.orders_eq hf k).1]
    exact List.mem_map_of_mem hpage
  · have hpages : ((List.range n).flatMap fun k => (resp k).orders) =
        ((List.range n).flatMap fun k => page (k * q.limit) q.limit (selected f (met 0))).map
          (·.response rfc3339) := by
      rw [List.map_flatMap]
      apply List.flatMap_congr
      intro k _
      rw [(hb.orders_eq hf k).1, hstill k]
    have hshort := (page_eq_nil_iff hlimit).mp hlast
    rw [hstill n] at hshort
    rw [hpages, flatMap_page, List.take_of_length_le hshort]
    exact (hselected 0).map _
  · rw [(hb.orders_eq hf k).2]
    exact (hselected k).length_eq

end Adding

section Reference

/-- An ask, and a bid below it that comes later. -/
def twoTracked : List (Request ℚ) :=
  [.addOrder ⟨"BTC", "30", 10000, "call"⟩ ⟨.sell, 100, 5, none, none⟩, .tick 10,
    .addOrder ⟨"BTC", "30", 10000, "call"⟩ ⟨.buy, 90, 1, none, none⟩]

def laterBid : List (Request ℚ) :=
  [.tick 10, .addOrder ⟨"BTC", "30", 10000, "call"⟩ ⟨.buy, 91, 1, none, none⟩]

/-- Pages of one order; a third order comes in after the first page. -/
def browsed : ℕ → AppState ReferenceBook ℚ
  | 0 => twoTracked.foldl step reference
  | _ + 1 => (twoTracked ++ laterBid).foldl step reference

def browsedPage (k : ℕ) : OrderListResponse :=
  ((listOrders (fun _ => none) (browsed k).storedOrders ⟨some "BTC", none, none, 1, k⟩).toOption).getD
    ⟨[], 0, 0, 0⟩

theorem orders_paged_three : ∃ o ∈ (browsed 0).storedOrders, o.createdAtMs = 0 ∧
    ∃ k < 3, o.response (fun _ => none) ∈ (browsedPage k).orders := by
  have hrun : Reaches Start step (fun _ _ => True) (browsed 0) :=
    (Reaches.start reference_start).run ⟨trivial, trivial, trivial, trivial⟩
  have hb : Browses (fun _ => none) ⟨some "BTC", none, none, 1, 0⟩ browsed
      (fun k => if k = 0 then laterBid else []) (fun k => (browsed k).storedOrders) browsedPage := by
    refine ⟨fun k => ?_, fun k => ?_, fun k => .refl _, fun k => ?_⟩
    · cases k with
      | zero => exact List.foldl_append
      | succ k => rfl
    · cases k with
      | zero =>
        intro r hr
        rcases List.mem_cons.mp hr with rfl | hr
        · trivial
        · obtain rfl := List.mem_singleton.mp hr
          trivial
      | succ k => exact fun r hr => absurd hr List.not_mem_nil
    · rw [Nat.mul_one]
      rfl
  obtain ⟨o, ho, hcreated, hkeep, hfirst, hlater⟩ : ∃ o ∈ (browsed 0).storedOrders,
      o.createdAtMs = 0 ∧ OrderFilter.keeps ⟨some "BTC", none, none⟩ o = true ∧
      (∀ o' ∈ (browsed 0).storedOrders, o'.createdAtMs = 0 → o' = o) ∧
      ∀ o' ∈ (browsed 1).storedOrders, o'.createdAtMs = 0 → o' = o := by decide +kernel
  refine ⟨o, ho, hcreated, (orders_paged hrun hb rfl Nat.one_pos (n := 3) ?_).1 o ho hkeep ?_⟩
  · decide +kernel
  · rw [hcreated]
    intro k o' ho' _ heq
    cases k with
    | zero => exact hfirst o' ho' heq
    | succ k => exact hlater o' ho' heq

end Reference

end AppState
end OptionChainBackend
