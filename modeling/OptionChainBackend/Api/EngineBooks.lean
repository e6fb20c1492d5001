import OptionChainBackend.Api.AtomicBatch
import OptionChainBackend.Api.CancelAll
import OptionChainBackend.Api.Parts
import OptionChainBackend.MarketMaker.Agreement

/-!
The engine's tracking against the books, over runs of the REST surface and the engine. They agree
as long as the quotes of the engine meet nobody on arrival, and nobody but the engine takes an
order of the engine off its book, trades with it unreported or brings it back.
-/
namespace OptionChainBackend
open Foundation Upstream MarketMaker Exchange

namespace AppState
variable {B F : Type} [Upstream B] {s s' : AppState B F} {x : Exchange B} {a : OptionAddr}
  {id : OrderId} {key : String} {r : MatchResult}

section Conditions

/-- The match trades with no engine order at a price that is not reported. -/
def Heard (s : AppState B F) (r : MatchResult) : Prop :=
  ∀ t ∈ r.trades, t.makerOrderId ∈ s.quoted → t.price < 2 ^ 64

/-- The match trades with no engine order. -/
def Misses (s : AppState B F) (r : MatchResult) : Prop := ∀ t ∈ r.trades, t.makerOrderId ∉ s.quoted

def LimitHeard (s : AppState B F) (a : OptionAddr) (tif : TimeInForce) (body : AddOrderRequest) :
    Prop :=
  ∀ r, ((s.market.openBook a).newOrderId.2.addLimitOrderWithTif a s.market.nextOrderId body.side
    body.price body.quantity tif).1 = .ok r → s.Heard r

def MarketHeard (s : AppState B F) (a : OptionAddr) (body : MarketOrderRequest) : Prop :=
  ∀ r, ((s.market.openBook a).newOrderId.2.submitMarketOrder a s.market.nextOrderId body.quantity
    body.side).1 = .ok r → s.Heard r

def ItemHeard (s : AppState B F) (done : List BulkOrderItem) (item : BulkOrderItem) : Prop :=
  ∀ a r, ((s.market.placeItems done).placeItem item).1 = some (a, r) → s.Heard r

/-- What DELETE addresses is no resting order of the engine. -/
def DeleteMisses (s : AppState B F) (a : OptionAddr) (id : OrderId) : Prop :=
  id ∈ s.quoted → s.market.getOrder a id = none

/-- PATCH replaces no order of the engine, and the replacement trades with none. -/
def ReplaceMisses (s : AppState B F) (a : OptionAddr) (id : OrderId) (side : Side)
    (price q : ℕ) : Prop :=
  id ∉ s.quoted ∧ ∀ r, ((s.market.cancelOrder a id).2.newOrderId.2.addLimitOrderWithTif a
    s.market.nextOrderId side price q .gtc).1 = .ok r → s.Misses r

/-- Every saved book has the engine's orders as they rest on the book it is restored to. -/
def RestoreKeeps (s : AppState B F) (snapshotId : String) : Prop :=
  ∀ stored, s.snapshots.lookup snapshotId = some stored → ∀ info ∈ stored.infos, ∀ a snapshot,
    restoreTarget B info = some (a, snapshot) → ∀ i ∈ s.quoted,
      snapshot.orders.find? (·.id = i) = s.market.getOrder a i

/-- The request leaves the orders of the engine to the engine, or the engine hears of it. -/
def EngineSafe [F64 F] (s : AppState B F) : Request F → Prop
  | .addOrder p body => ∀ a tif, s.checkAddOrder p body = .ok (a, tif) → s.LimitHeard a tif body
  | .submitMarketOrder p body => ∀ a, checkMarketOrder p body = .ok a → s.MarketHeard a body
  | .cancelOrder p key => ∀ a id, target s.market p key = .ok (a, id) → s.DeleteMisses a id
  | .modifyOrder p key body => ∀ a id o price q,
      s.checkModifyOrder p key body = .ok (a, id, o, price, q) → s.ReplaceMisses a id o.side price q
  | .bulkSubmitOrders body => EachInTurn (fun done item =>
      (body.atomic = true → EachInTurn s.market.Accepts done) → s.ItemHeard done item) body.orders
  | .restoreSnapshot snapshotId => s.RestoreKeeps snapshotId
  | .deleteUnderlying underlying =>
      ∀ i o, s.engine.activeOrders.lookup i = some o → o.symbol ≠ underlying
  | .engine op => s.toDesk.OperationClears op
  | _ => True

end Conditions

section Reports
variable [LawfulUpstream B] {d : Desk B F} {side : Side} {limit : Option ℕ} {q : ℕ}
  {left : Option RestingOrder}

theorem notifyMakers_eq (d : Desk B F) (r : MatchResult) :
    notifyMakers d r = r.trades.foldl Desk.reportTrade d := by
  unfold notifyMakers executedFills
  rw [List.foldl_map]
  congr 1
  funext d' t
  unfold Desk.reportTrade notifyMaker
  rw [LawfulUpstream.parse_show]

theorem Recorded.inStep (h : s.InStep) {symbol : String}
    (hrec : Recorded s s' x a symbol side r) (hs : Submitted s.market x a side limit q r left)
    (hheard : s.Heard r) : s'.InStep := by
  show s'.toDesk.InStep
  rw [hrec.desk, notifyMakers_eq]
  exact Desk.InStep.reports h hs hheard

omit [LawfulUpstream B] in
theorem idle_inStep (h : s.InStep) (hi : Idle s.market x) : (s.withMarket x).InStep :=
  Desk.InStep.quiet h hi.toQuiet hi.grows

end Reports
section Parts
variable [LawfulUpstream B]

theorem submitLimit_inStep (h : s.InStep) (expStr : String) {tif : TimeInForce}
    {body : AddOrderRequest} (hok : s.LimitHeard a tif body) :
    (s.submitLimit expStr a tif body).2.InStep := by
  rcases submitLimit_cases h.fresh expStr a tif body with ⟨x, he, hi⟩ | ⟨r, x, he, hr, hs⟩
  · rw [he]
    exact idle_inStep h hi
  · rw [he]
    have hrec := acceptLimit_recorded (s := s) (x := x) (a := a) expStr body s.market.nextOrderId
      hs.filled.matched.positive
    exact hrec.1.inStep h hs (hok r hr)

theorem submitMarket_inStep (h : s.InStep) (expStr : String) {body : MarketOrderRequest}
    (hok : s.MarketHeard a body) : (s.submitMarket expStr a body).2.InStep := by
  rcases submitMarket_cases h.fresh expStr a body with ⟨x, he, hi⟩ | ⟨r, x, he, hr, hs⟩
  · rw [he]
    exact idle_inStep h hi
  · rw [he]
    have hrec := acceptMarket_recorded (s := s) (x := x) (a := a) expStr body.side
      hs.filled.matched.positive
    exact hrec.1.inStep h hs (hok r hr)

omit [LawfulUpstream B] in
/-- A cancel of an order that is not the engine's. -/
theorem cancelled_inStep (h : s.InStep) (hc : Cancelled s.market x a id) (hid : id ∉ s.quoted) :
    (s.withMarket x).InStep :=
  Desk.InStep.removed h hc.toRemoved hid (.of_eq hc.catalog)

/-- What DELETE does when it does not remove an order of the engine. -/
theorem cancelAt_inStep (h : s.InStep) (key : String) (hok : s.DeleteMisses a id) :
    (s.cancelAt a id key).2.InStep := by
  rcases cancelAt_cases (s := s) a id key with
    ⟨e, x, he, -, hi⟩ | ⟨x, he, -, hc⟩ | ⟨x, he, -, hi, -⟩
  · rw [he]
    exact idle_inStep h hi
  · have hid : id ∉ s.quoted := by
      intro hq
      have hpresent := hc.present
      rw [hok hq] at hpresent
      cases hpresent
    have hkept := cancelled_inStep h hc hid
    rw [he]
    cases hr : s.market.getOrder a id with
    | none => exact hkept
    | some o => exact hkept
  · rw [he]
    exact idle_inStep h hi

theorem placeReplacement_inStep (h : s.InStep) (expStr : String) (side : Side) (price q : ℕ)
    (hok : ∀ r, (s.market.newOrderId.2.addLimitOrderWithTif a s.market.nextOrderId side price q
      .gtc).1 = .ok r → s.Misses r) :
    (s.placeReplacement expStr key a side price q).2.InStep := by
  rcases placeReplacement_cases h.fresh expStr key a side price q with
    ⟨x, he, hi⟩ | ⟨r, x, he, hr, hs⟩
  · rw [he]
    exact idle_inStep h hi
  · rw [he]
    exact Desk.InStep.unmet h hs (hok r hr)

theorem replaceOrder_inStep (h : s.InStep) (expStr : String) (o : RestingOrder) (price q : ℕ)
    (hok : s.ReplaceMisses a id o.side price q) :
    (s.replaceOrder expStr key a id o price q).2.InStep := by
  obtain ⟨hid, hfree⟩ := hok
  rcases replaceOrder_cases (s := s) expStr key a id o price q with
    ⟨x, he, hi⟩ | ⟨x, he, hres, hc⟩
  · rw [he]
    exact idle_inStep h hi
  · rw [he]
    have hkept := cancelled_inStep h hc hid
    apply placeReplacement_inStep
    · exact hkept
    · intro r hr
      apply hfree r
      rw [hres]
      have hn : x.nextOrderId = s.market.nextOrderId := hc.nextOrderId
      rw [← hn]
      exact hr

/-- The engine is in step, and its orders are those of `s`. -/
structure KeepsStep (s s' : AppState B F) : Prop where
  inStep : s'.InStep
  quoted : s'.quoted = s.quoted

/-- A cancel through the stored strings, under a key that is not the engine's. -/
theorem cancelTracked_keepsStep (h : s.InStep) (o : OrderInfo) {i : OrderId}
    (hi : i ∉ s.quoted) : KeepsStep s (s.cancelTracked (showOrderId B i) o).2 := by
  rcases cancelTracked_cases (s := s) (showOrderId B i) o with
    ⟨e, x, he, hidle, -⟩ | ⟨a, id, x, he, ht, hc⟩
  · rw [he]
    exact ⟨idle_inStep h hidle, rfl⟩
  · rw [he]
    have hid : id = i := trackedTarget_id ht
    exact ⟨cancelled_inStep h hc (hid ▸ hi), rfl⟩

theorem rollbackOrder_keepsStep (h : s.InStep) (item : BulkOrderItem) {o : AcceptedBulkOrder}
    (hid : o.orderId ∉ s.quoted) : KeepsStep s (s.rollbackOrder item o).2 := by
  have hdesk : ∀ (s' : AppState B F) res, (s'.reconcile o res).toDesk = s'.toDesk := by
    intro s' res
    unfold reconcile
    dsimp only
    split_ifs
    · rfl
    · cases res <;> rfl
  unfold rollbackOrder
  rcases cancelBulkItemOrder_cases (s := s) item o.orderId with
    ⟨res, x, he, hi, -⟩ | ⟨a, x, he, -, hc⟩
  · rw [he]
    constructor
    · show ((s.withMarket x).reconcile o res).toDesk.InStep
      rw [hdesk]
      exact idle_inStep h hi
    · show ((s.withMarket x).reconcile o res).toDesk.quoted = s.quoted
      rw [hdesk]
      rfl
  · rw [he]
    let s1 := (s.withMarket x).publishLevelDelta a item.side item.price
    constructor
    · show (s1.reconcile o (.ok true)).toDesk.InStep
      rw [hdesk]
      exact cancelled_inStep h hc hid
    · show (s1.reconcile o (.ok true)).toDesk.quoted = s.quoted
      rw [hdesk]
      rfl

theorem rollbackOrders_keepsStep (h : s.InStep) (items : List BulkOrderItem)
    {accepted : List AcceptedBulkOrder} (hids : ∀ o ∈ accepted, o.orderId ∉ s.quoted) :
    KeepsStep s (s.rollbackOrders items accepted).2 := by
  unfold rollbackOrders
  apply List.foldlRecOn (motive := fun acc : Outcomes × AppState B F => KeepsStep s acc.2)
  · exact ⟨h, rfl⟩
  · intro acc hacc o ho
    unfold rollbackNext
    cases items[o.index]? with
    | none => exact hacc
    | some item =>
      have hid : o.orderId ∉ acc.2.quoted := by
        rw [hacc.quoted]
        exact hids o ho
      have hnext := rollbackOrder_keepsStep hacc.inStep item hid
      exact ⟨hnext.inStep, hnext.quoted.trans hacc.quoted⟩

theorem submitAll_keepsStep {atomic : Bool} {items : List BulkOrderItem} (h : s.InStep)
    (hok : EachInTurn (fun done item =>
      (atomic = true → EachInTurn s.market.Accepts done) → s.ItemHeard done item) items) :
    KeepsStep s (s.submitAll atomic items).state := by
  induction items using List.reverseRecOn with
  | nil => exact ⟨h, rfl⟩
  | append_singleton items item ih =>
    obtain ⟨hinit, hlast⟩ := EachInTurn.concat_iff.mp hok
    have hb := ih hinit
    have hfresh := hb.inStep.fresh
    rw [submitAll_concat]
    cases hf : (s.submitAll atomic items).failed with
    | some f =>
      rw [Batch.next_failed hf]
      exact hb
    | none =>
      rcases Batch.next_cases hf atomic item items.length with ⟨a, r, hsome, he⟩ | ⟨e, hnone, he⟩
      · have hheard : s.ItemHeard items item := by
          apply hlast
          rintro rfl
          exact (submitAll_unfailed_iff s items).mp hf
        have hmatch : s.Heard r := hheard a r (by rwa [← submitAll_market s atomic items hf])
        obtain ⟨hl, hs⟩ := placeItem_accepted hfresh hsome
        have hu : a.underlying = item.underlying := (locate_ok hl).2.1
        have hrec := acceptItem_recorded (s := (s.submitAll atomic items).state) (a := a) (r := r)
          (x := ((s.submitAll atomic items).state.market.placeItem item).2) item
          (s.submitAll atomic items).state.market.nextOrderId hu
          hs.filled.matched.positive
        rw [he]
        constructor
        · apply hrec.inStep hb.inStep hs
          intro t ht hq
          rw [hb.quoted] at hq
          exact hmatch t ht hq
        · exact hrec.quoted.trans hb.quoted
      · have hi := placeItem_refused hfresh hnone
        rw [he]
        split_ifs <;> exact ⟨idle_inStep hb.inStep hi, hb.quoted⟩

theorem bulkSubmitOrders_inStep (h : s.InStep) {body : BulkOrderRequest}
    (hok : EachInTurn (fun done item =>
      (body.atomic = true → EachInTurn s.market.Accepts done) → s.ItemHeard done item)
      body.orders) : (s.bulkSubmitOrders body).2.InStep := by
  have hb := submitAll_keepsStep h hok
  have hplaced := submitAll_placed h.fresh body.atomic body.orders
  unfold bulkSubmitOrders
  split_ifs
  · exact h
  · dsimp only
    unfold Batch.finish
    split
    · apply (rollbackOrders_keepsStep hb.inStep body.orders _).inStep
      intro o ho hq
      obtain ⟨-, -, -, -, hnew, -⟩ := hplaced.places o ho
      rw [hb.quoted] at hq
      exact absurd (h.issued hq) (Nat.not_lt.mpr hnew)
    · exact hb.inStep

theorem bulkCancelOrders_inStep (hg : s.Grounded) (h : s.InStep) (keys : List String) :
    (s.bulkCancelOrders keys).2.InStep := by
  apply bulkCancelOrders_keeps (P := fun s : AppState B F => s.InStep) hg h
  intro s' o key _ ho hg' h'
  obtain ⟨i, a, rfl, hi, -⟩ := hg'.tracked key o ho
  exact (cancelTracked_keepsStep h' o hi).inStep

theorem cancelAllOrders_inStep (hg : s.Grounded) (h : s.InStep) (q : CancelAllQuery) :
    (s.cancelAllOrders q).2.InStep := by
  have hall : KeepsStep s (s.cancelAllOrders q).2 := by
    apply cancelAllOrders_keeps hg ⟨h, rfl⟩
    intro s' key o f _ hlookup _ _ h'
    obtain ⟨i, a, rfl, hi, -⟩ := hg.tracked key o hlookup
    rw [← h'.quoted] at hi
    have hone := cancelTracked_keepsStep h'.inStep o hi
    exact ⟨hone.inStep, hone.quoted.trans h'.quoted⟩
  exact hall.inStep

theorem restoreSnapshot_inStep (hg : s.Grounded) (h : s.InStep) (snapshotId : String)
    (hok : s.RestoreKeeps snapshotId) : (s.restoreSnapshot snapshotId).2.InStep := by
  rcases restoreSnapshot_cases (s := s) snapshotId with he | ⟨stored, hst, he⟩
  · rw [he]
    exact h
  · rw [he]
    have hsaved := hg.saved snapshotId stored hst
    have hkept := hok stored hst
    have hall : (s.withMarket (restoreInfos s.market stored.infos).2).InStep ∧
        s.market.nextOrderId ≤ (restoreInfos s.market stored.infos).2.nextOrderId ∧
        ∀ i ∈ s.quoted, ∀ c, (restoreInfos s.market stored.infos).2.getOrder c i =
          s.market.getOrder c i := by
      unfold restoreInfos
      apply List.foldlRecOn (motive := fun acc : RestoreTally × Exchange B =>
        (s.withMarket acc.2).InStep ∧ s.market.nextOrderId ≤ acc.2.nextOrderId ∧
          ∀ i ∈ s.quoted, ∀ c, acc.2.getOrder c i = s.market.getOrder c i)
      · exact ⟨h, le_rfl, fun i _ c => rfl⟩
      · rintro acc ⟨hin, hnext, hget⟩ info hmem
        have hdesk : Desk.InStep { s.toDesk with market := acc.2 } := hin
        rcases restoreInfo_answer acc info with hidle | ⟨a, snapshot, ht, hr⟩
        · refine ⟨hdesk.quiet hidle.toQuiet hidle.grows,
            hnext.trans hidle.nextOrderId, fun i hi c => ?_⟩
          rw [hidle.getOrder]
          exact hget i hi c
        · have hsame : ∀ i ∈ s.quoted,
              snapshot.orders.find? (·.id = i) = acc.2.getOrder a i := by
            intro i hi
            rw [hget i hi a]
            exact hkept info hmem a snapshot ht i hi
          refine ⟨hdesk.restored hr (fun o ho => ?_) hsame, ?_, fun i hi c => ?_⟩
          · exact (hsaved info hmem snapshot (restoreTarget_parse ht) o ho).trans_le hnext
          · rw [hr.nextOrderId]
            exact hnext
          · rw [hr.getOrder]
            split_ifs with hc
            · rw [hsame i hi, hget i hi, hc]
            · exact hget i hi c
    exact hall.1

end Parts

section Runs
variable [LawfulUpstream B] [F64 F]

/-- A grounded state whose engine is in step with its books. -/
structure Synced (s : AppState B F) : Prop where
  grounded : s.Grounded
  inStep : s.InStep

theorem Synced.step (h : s.Synced) (hc : CancelRemoves B) (i : Request F) (hok : s.EngineSafe i) :
    (s.step i).Synced := by
  have hg := h.grounded
  have hs := h.inStep
  constructor
  · exact hg.step i
  cases i with
  | addOrder p body =>
    show (s.addOrder p body).2.InStep
    unfold addOrder
    split
    · exact hs
    · exact submitLimit_inStep hs _ (hok _ _ ‹_›)
  | submitMarketOrder p body =>
    show (s.submitMarketOrder p body).2.InStep
    unfold submitMarketOrder
    split
    · exact hs
    · exact submitMarket_inStep hs _ (hok _ ‹_›)
  | cancelOrder p key =>
    show (s.cancelOrder p key).2.InStep
    unfold cancelOrder
    split
    · exact hs
    · exact cancelAt_inStep hs key (hok _ _ ‹_›)
  | modifyOrder p key body =>
    show (s.modifyOrder p key body).2.InStep
    unfold modifyOrder
    split
    · exact hs
    · exact replaceOrder_inStep hs _ _ _ _ (hok _ _ _ _ _ ‹_›)
  | bulkSubmitOrders body => exact bulkSubmitOrders_inStep hs hok
  | bulkCancelOrders keys => exact bulkCancelOrders_inStep hg hs keys
  | cancelAllOrders q => exact cancelAllOrders_inStep hg hs q
  | createSnapshot id => exact hs
  | restoreSnapshot id => exact restoreSnapshot_inStep hg hs id hok
  | createUnderlying u => exact idle_inStep hs (getOrCreate_idle _ u)
  | createExpiration u expStr =>
    show (s.createExpiration u expStr).2.InStep
    unfold createExpiration
    split
    · exact hs
    · exact idle_inStep hs ((getOrCreate_idle _ u).trans (getOrCreateExpiration_idle _ u _))
  | createStrike u expStr strike =>
    show (s.createStrike u expStr strike).2.InStep
    unfold createStrike
    split
    · exact hs
    · exact idle_inStep hs (((getOrCreate_idle _ u).trans
        (getOrCreateExpiration_idle _ u _)).trans (getOrCreateStrike_idle _ u _ strike))
  | deleteUnderlying u =>
    show (s.deleteUnderlying u).2.InStep
    unfold deleteUnderlying
    split_ifs
    · exact Desk.InStep.remove hs u hok
    · exact hs
  | cleanupOldOrders age =>
    show (s.cleanupOldOrders age).2.InStep
    unfold cleanupOldOrders
    apply List.foldlRecOn (motive := fun s' : AppState B F => s'.InStep)
    · exact hs
    · exact fun s' h' key _ => h'
  | engine op => exact Desk.InStep.operation hs hc op hok
  | tick ms => exact Desk.InStep.tick hs ms

theorem Start.synced (h : s.Start) : s.Synced := by
  constructor
  · exact h.grounded
  obtain ⟨quoter, rfl⟩ := h
  have hnone : ∀ {i o}, (AppState.new quoter : AppState B F).engine.activeOrders.lookup i ≠
      some o := by
    intro i o ho
    cases ho
  have hsession : Session.Start ⟨(AppState.new quoter : AppState B F).toDesk, fun _ => 0⟩ :=
    ⟨⟨quoter, rfl⟩, rfl, rfl, init_fresh⟩
  apply Desk.InStep.of_reported hsession.tidy
  · constructor
    · exact fun ho => absurd ho hnone
    · exact fun ho => absurd ho hnone
    · exact fun hi _ => by cases hi
  · exact fun ho => absurd ho hnone

end Runs
section Reference

/-- The requests that trade, cancel, save or restore, and what the engine does of itself. -/
def Served : Request F → Bool
  | .addOrder _ _ | .submitMarketOrder _ _ | .cancelOrder _ _ | .modifyOrder _ _ _
  | .bulkSubmitOrders _ | .bulkCancelOrders _ | .cancelAllOrders _ | .createSnapshot _
  | .restoreSnapshot _ => true
  | .engine (.onOrderFilled _ _ _) => false
  | .engine _ => true
  | _ => false

/-- A sell far above the market opens the book, and the engine quotes on it. -/
def quotedBelow : List (Request ℚ) :=
  [.addOrder ⟨"BTC", "30", 10000, "call"⟩ ⟨.sell, 600, 10, none, none⟩,
    .engine (.updatePrice "BTC" 10000)]

/-- A market order for part of the engine's ask. -/
def takeAsk : Request ℚ := .submitMarketOrder ⟨"BTC", "30", 10000, "call"⟩ ⟨.buy, 3⟩

end Reference
end AppState
end OptionChainBackend
