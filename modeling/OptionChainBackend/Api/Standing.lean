import OptionChainBackend.Api.Addressed

/-!
Working orders and the books they were placed on. A book goes only with its underlying, so a book
of a name is told from a later one of that name by how often the underlying was removed.
-/
namespace OptionChainBackend
open Foundation Upstream MarketMaker Exchange

def OrderInfo.Working (o : OrderInfo) : Prop := o.status = .active ∨ o.status = .partialFill

theorem OrderInfo.markFilled_not_working (o : OrderInfo) (now : ℕ) :
    ¬ (o.markFilled now).Working := by
  rintro (h | h) <;> cases h

namespace Exchange
variable {B : Type} [Upstream B]

theorem remove_hasBook (x : Exchange B) {underlying : String} {a : OptionAddr}
    (h : a.underlying ≠ underlying) : (x.remove underlying).hasBook a = x.hasBook a := by
  simp [Catalog.hasBook, Catalog.get, Catalog.getExpiration, Catalog.getStrike, remove, h]

end Exchange

namespace MarketMaker.Desk
variable {B F : Type} [Upstream B] [LawfulUpstream B] {d₀ d : Desk B F}

/-- The engine tracks what it tracked, or what it placed since on a book that exists. -/
structure Tracks (d₀ d : Desk B F) : Prop where
  wanes : Wanes d₀.market d.market
  catalog : d.market.toCatalog = d₀.market.toCatalog
  active : ∀ i o, d.engine.activeOrders.lookup i = some o →
    (∃ o₀, d₀.engine.activeOrders.lookup i = some o₀ ∧ o₀.addr = o.addr) ∨
    d₀.market.nextOrderId ≤ i ∧ d.market.home i = some o.addr ∧ d.market.hasBook o.addr = true

theorem tracks_legsKeep (d₀ : Desk B F) : LegsKeep (Tracks d₀) where
  thin d e he h := by
    refine ⟨h.wanes, h.catalog, fun i o ho => ?_⟩
    obtain ⟨o', ho', haddr⟩ := he i o ho
    rw [← haddr]
    exact h.active i o' ho'
  cancel d a i h := by
    have hw := cancelOrder_wanes h.wanes.fresh a i
    refine ⟨h.wanes.trans hw, h.catalog, fun j o ho => ?_⟩
    exact (h.active j o ho).imp_right fun hnew => ⟨hnew.1, hw.home hnew.2.1, hnew.2.2⟩
  leg d p o hb h := by
    have habs : d.market.getOrder o.addr d.market.nextOrderId = none :=
      h.wanes.fresh.absent le_rfl
    rcases d.placeLeg_cases p o habs with ⟨x, he, hq, hc, -⟩ | ⟨x, side, r, left, he, hf, hc, -⟩
    · have hw := hq.wanes h.wanes.fresh
      rw [he]
      refine ⟨h.wanes.trans hw, hc.trans h.catalog, fun j o' ho' => ?_⟩
      rcases h.active j o' ho' with hold | ⟨hid, hhome, hbook⟩
      · exact .inl hold
      · exact .inr ⟨hid, hw.home hhome, (Grows.of_eq hc) _ hbook⟩
    · have hnew : Wanes d.market d.market.newOrderId.2 :=
        (newOrderId_quiet _).wanes h.wanes.fresh
      have hnone : d.market.home d.market.nextOrderId = none := by
        cases hh : d.market.home d.market.nextOrderId with
        | none => rfl
        | some b => exact absurd (h.wanes.fresh.home hh) (lt_irrefl _)
      have hw : Wanes d.market x :=
        hnew.trans (hf.wanes hnew.fresh (Nat.lt_succ_self _) hnone)
      rw [he]
      refine ⟨h.wanes.trans hw, hc.trans h.catalog, fun j o' ho' => ?_⟩
      simp only [MarketMakerEngine.track, Table.lookup_insert_eq] at ho'
      split_ifs at ho' with hj
      · obtain rfl := Option.some.inj ho'
        subst hj
        refine .inr ⟨h.wanes.next, ?_, (Grows.of_eq hc) _ hb⟩
        simp [hf.home]
      · rcases h.active j o' ho' with hold | ⟨hid, hhome, hbook⟩
        · exact .inl hold
        · exact .inr ⟨hid, hw.home hhome, (Grows.of_eq hc) _ hbook⟩

theorem operation_tracks [F64 F] {d : Desk B F} (hx : d.market.Fresh) (op : Operation F) :
    Tracks d (op.apply d) :=
  (tracks_legsKeep d).operation ⟨.refl hx, rfl, fun _ o ho => .inl ⟨o, ho, rfl⟩⟩ op

end MarketMaker.Desk

namespace AppState
variable {B F : Type} [Upstream B] {s₀ s s' s'' : AppState B F} {i : OrderId} {a : OptionAddr}

/-- Order `i` was placed on `a` since `s`, and its book exists. -/
def PlacedSince (s s' : AppState B F) (i : OrderId) (a : OptionAddr) : Prop :=
  s.market.nextOrderId ≤ i ∧ s'.market.home i = some a ∧ s'.market.hasBook a = true

/-- No book goes, and what works or is tracked by the engine did before or was placed since. -/
structure Lasts (s s' : AppState B F) : Prop where
  next : s.market.nextOrderId ≤ s'.market.nextOrderId
  home : ∀ {i a}, s.market.home i = some a → s'.market.home i = some a
  books : Grows s.market s'.market
  order : ∀ key o', s'.orders.lookup key = some o' → o'.Working →
    (∃ o, s.orders.lookup key = some o ∧ o.Working) ∨
    ∃ i a, key = showOrderId B i ∧ s.PlacedSince s' i a
  quote : ∀ i o', s'.engine.activeOrders.lookup i = some o' →
    (∃ o, s.engine.activeOrders.lookup i = some o ∧ o.addr = o'.addr) ∨ s.PlacedSince s' i o'.addr

omit [Upstream B] in
theorem PlacedSince.later (h : s.PlacedSince s' i a)
    (hhome : s'.market.home i = some a → s''.market.home i = some a)
    (hb : Grows s'.market s''.market) : s.PlacedSince s'' i a :=
  ⟨h.1, hhome h.2.1, hb a h.2.2⟩

theorem Lasts.refl (s : AppState B F) : Lasts s s where
  next := le_rfl
  home h := h
  books := .of_eq rfl
  order _ o ho hw := .inl ⟨o, ho, hw⟩
  quote _ o ho := .inl ⟨o, ho, rfl⟩

theorem Lasts.trans (h : Lasts s s') (h' : Lasts s' s'') : Lasts s s'' where
  next := h.next.trans h'.next
  home hh := h'.home (h.home hh)
  books := h.books.trans h'.books
  order key o'' ho'' hw'' := by
    rcases h'.order key o'' ho'' hw'' with ⟨o', ho', hw'⟩ | ⟨i, a, hk, hp⟩
    · rcases h.order key o' ho' hw' with hold | ⟨i, a, hk, hp⟩
      · exact .inl hold
      · exact .inr ⟨i, a, hk, hp.later h'.home h'.books⟩
    · exact .inr ⟨i, a, hk, h.next.trans hp.1, hp.2⟩
  quote i o'' ho'' := by
    rcases h'.quote i o'' ho'' with ⟨o', ho', haddr'⟩ | hp
    · rcases h.quote i o' ho' with ⟨o, ho, haddr⟩ | hp
      · exact .inl ⟨o, ho, haddr.trans haddr'⟩
      · exact .inr (haddr' ▸ hp.later h'.home h'.books)
    · exact .inr ⟨h.next.trans hp.1, hp.2⟩

/-- Nothing is placed and nothing begins to work. -/
theorem Lasts.calm (ha : Ages s.market s'.market) (hb : Grows s.market s'.market)
    (ho : ∀ key o', s'.orders.lookup key = some o' → o'.Working →
      ∃ o, s.orders.lookup key = some o ∧ o.Working)
    (he : s.engine.Thins s'.engine) : Lasts s s' where
  next := ha.next
  home := ha.home
  books := hb
  order key o' hl hw := .inl (ho key o' hl hw)
  quote i o' hl := .inl (he i o' hl)

/-- An order is placed on a book that exists, and tracked. -/
theorem Lasts.placed {info : OrderInfo} (ha : Ages s.market s'.market)
    (hb : Grows s.market s'.market) (hp : s.PlacedSince s' i a)
    (ho : s'.orders = s.orders.insert (showOrderId B i) info)
    (he : s.engine.Thins s'.engine) : Lasts s s' where
  next := ha.next
  home := ha.home
  books := hb
  order key o' hl hw := by
    rw [ho, Table.lookup_insert_eq] at hl
    split_ifs at hl with hk
    · exact .inr ⟨i, a, hk, hp⟩
    · exact .inl ⟨o', hl, hw⟩
  quote i o' hl := .inl (he i o' hl)

theorem working_of_erase {key k : String} {t : Table String OrderInfo} {o : OrderInfo}
    (ho : (t.erase key).lookup k = some o) (hw : o.Working) :
    ∃ o, t.lookup k = some o ∧ o.Working := by
  rw [Table.lookup_erase_eq] at ho
  split_ifs at ho
  exact ⟨o, ho, hw⟩

section Parts
variable [LawfulUpstream B]

omit [LawfulUpstream B] in
theorem notifyMakers_thins (d : Desk B F) (r : MatchResult) :
    d.engine.Thins (notifyMakers d r).engine := by
  unfold notifyMakers
  apply List.foldlRecOn (motive := fun d' : Desk B F => d.engine.Thins d'.engine)
  · exact .of_eq rfl
  · intro d' hd fill _
    split_ifs
    · refine hd.trans ?_
      unfold notifyMaker
      split
      · exact .onOrderFilled _ _ _ _ _
      · exact .of_eq rfl
    · exact hd

omit [LawfulUpstream B] in
theorem Recorded.thins {x : Exchange B} {symbol : String} {side : Side} {r : MatchResult}
    (h : Recorded s s' x a symbol side r) : s.engine.Thins s'.engine := by
  have hdesk : s'.engine = (notifyMakers { s.toDesk with market := x } r).engine :=
    congrArg Desk.engine h.desk
  rw [hdesk]
  exact notifyMakers_thins _ r

omit [LawfulUpstream B] in
theorem idle_lasts (hg : s.Grounded) {x : Exchange B} (hi : Idle s.market x) :
    Lasts s (s.withMarket x) :=
  .calm (hi.toQuiet.wanes hg.fresh).toAges hi.grows (fun _ o ho hw => ⟨o, ho, hw⟩) (.of_eq rfl)

theorem submitLimit_lasts (hg : s.Grounded) (expStr : String) (a : OptionAddr)
    (tif : TimeInForce) (body : AddOrderRequest) :
    Lasts s (s.submitLimit expStr a tif body).2 := by
  have hb : (s.submitLimit expStr a tif body).2.market.hasBook a = true := by
    rw [submitLimit_catalog]
    exact hasBook_openBook _ a
  rcases submitLimit_cases hg.fresh expStr a tif body with ⟨x, he, hi⟩ | ⟨r, x, he, -, hs⟩
  · rw [he]
    exact idle_lasts hg hi
  · obtain ⟨hr, ho⟩ := acceptLimit_recorded (s := s) (x := x) (a := a) expStr body
      s.market.nextOrderId hs.filled.matched.positive
    rw [he] at hb ⊢
    apply Lasts.placed (i := s.market.nextOrderId) (a := a) _ _ _ ho hr.thins
    · rw [hr.market]
      exact (hs.wanes hg.fresh).toAges
    · rw [hr.market]
      exact hs.grows
    · refine ⟨le_rfl, ?_, hb⟩
      rw [hr.market]
      exact hs.home_self

theorem submitMarket_lasts (hg : s.Grounded) (expStr : String) (a : OptionAddr)
    (body : MarketOrderRequest) : Lasts s (s.submitMarket expStr a body).2 := by
  rcases submitMarket_cases hg.fresh expStr a body with ⟨x, he, hi⟩ | ⟨r, x, he, -, hs⟩
  · rw [he]
    exact idle_lasts hg hi
  · obtain ⟨hr, ho⟩ := acceptMarket_recorded (s := s) (x := x) (a := a) expStr body.side
      hs.filled.matched.positive
    rw [he]
    apply Lasts.calm _ _ _ hr.thins
    · rw [hr.market]
      exact (hs.wanes hg.fresh).toAges
    · rw [hr.market]
      exact hs.grows
    · intro key o hl hw
      rw [ho] at hl
      exact ⟨o, hl, hw⟩

theorem submitSingleOrder_lasts (hg : s.Grounded) (item : BulkOrderItem) :
    Lasts s (s.submitSingleOrder item).2 := by
  rcases submitSingleOrder_cases s item with ⟨e, hnone, he⟩ | ⟨a, r, hsome, he⟩
  · rw [he]
    exact idle_lasts hg (placeItem_refused hg.fresh hnone)
  · obtain ⟨hl, hs⟩ := placeItem_accepted hg.fresh hsome
    obtain ⟨-, hu, -, -, hbook⟩ := locate_ok hl
    have hr := acceptItem_recorded (s := s) (x := (s.market.placeItem item).2) item
      s.market.nextOrderId hu hs.filled.matched.positive
    rw [he]
    apply Lasts.placed (i := s.market.nextOrderId) (a := a) _ _ _ (acceptItem_orders _ _) hr.thins
    · rw [hr.market]
      exact (hs.wanes hg.fresh).toAges
    · rw [hr.market]
      exact hs.grows
    · refine ⟨le_rfl, ?_, ?_⟩
      · rw [hr.market]
        exact hs.home_self
      · rw [hr.market, (placeItem_cases hg.fresh item).1]
        exact hbook

omit [LawfulUpstream B] in
/-- An order is taken off its book and no longer tracked. -/
theorem cancelled_lasts (hg : s.Grounded) {x : Exchange B} {b : OptionAddr}
    (hc : Cancelled s.market x b i) (hm : s'.market = x) (he : s'.engine = s.engine)
    {key : String} (ho : s'.orders = s.orders.erase key) : Lasts s s' := by
  apply Lasts.calm
  · rw [hm]
    exact (hc.toRemoved.shrunk.wanes hg.fresh).toAges
  · rw [hm]
    exact .of_eq hc.catalog
  · intro k o hl hw
    rw [ho] at hl
    exact working_of_erase hl hw
  · exact .of_eq (congrArg _ he)

theorem cancelAt_lasts (hg : s.Grounded) (a : OptionAddr) (id : OrderId) (key : String) :
    Lasts s (s.cancelAt a id key).2 := by
  rcases cancelAt_cases (s := s) a id key with ⟨e, x, he, -, hi⟩ | ⟨x, he, -, hc⟩ | ⟨x, he, -, hi, -⟩
  · rw [he]
    exact idle_lasts hg hi
  · rw [he]
    cases s.market.getOrder a id with
    | none => exact cancelled_lasts hg hc rfl rfl rfl
    | some o => exact cancelled_lasts hg hc rfl rfl rfl
  · have hworking : ∀ k o, (s.orders.modify key (.markFilled s.market.now)).lookup k = some o →
        o.Working → ∃ o, s.orders.lookup k = some o ∧ o.Working := by
      intro k o hl hw
      rw [Table.lookup_modify] at hl
      split_ifs at hl
      · obtain ⟨o', -, rfl⟩ := Option.map_eq_some_iff.mp hl
        exact absurd hw (o'.markFilled_not_working _)
      · exact ⟨o, hl, hw⟩
    rw [he]
    exact .calm (hi.toQuiet.wanes hg.fresh).toAges hi.grows hworking (.of_eq rfl)

theorem replaceOrder_lasts (hg : s.Grounded) (hb : s.market.hasBook a = true) (expStr key : String)
    (id : OrderId) (o : RestingOrder) (price q : ℕ) :
    Lasts s (s.replaceOrder expStr key a id o price q).2 := by
  rcases replaceOrder_cases (s := s) expStr key a id o price q with ⟨x, he, hi⟩ | ⟨x, he, -, hc⟩
  · rw [he]
    exact idle_lasts hg hi
  · have h1 : Lasts s (((s.withMarket x).untrack key).publishLevelDelta a o.side o.price) :=
      cancelled_lasts hg hc rfl rfl rfl
    have hw : Advances s (((s.withMarket x).untrack key).publishLevelDelta a o.side o.price) :=
      ((Advances.withMarket (hc.toRemoved.shrunk.wanes hg.fresh)).untrack key).reported
        (publishLevelDelta_reported a o.side o.price)
    have hg1 := hg.advance hw
    rw [he]
    refine h1.trans ?_
    rcases placeReplacement_cases hg1.fresh expStr key a o.side price q with
      ⟨x', he', hi'⟩ | ⟨r, x', he', -, hs'⟩
    · rw [he']
      exact idle_lasts hg1 hi'
    · rw [he']
      exact .placed (hs'.wanes hg1.fresh).toAges hs'.grows
        ⟨le_rfl, hs'.home_self, hs'.grows a (h1.books a hb)⟩ rfl (.of_eq rfl)

theorem cancelTracked_lasts (hg : s.Grounded) (key : String) (o : OrderInfo) :
    Lasts s (s.cancelTracked key o).2 := by
  rcases cancelTracked_cases (s := s) key o with ⟨e, x, he, hi, -⟩ | ⟨a, id, x, he, -, hc⟩
  · rw [he]
    exact idle_lasts hg hi
  · rw [he]
    exact cancelled_lasts hg hc rfl rfl rfl

theorem cancelBulkItemOrder_lasts (hg : s.Grounded) (item : BulkOrderItem) (id : OrderId) :
    Lasts s (s.cancelBulkItemOrder item id).2 := by
  have hworking : ∀ key o, s.orders.lookup key = some o → o.Working →
      ∃ o, s.orders.lookup key = some o ∧ o.Working := fun _ o hl hw => ⟨o, hl, hw⟩
  rcases cancelBulkItemOrder_cases (s := s) item id with ⟨res, x, he, hi, -⟩ | ⟨a, x, he, -, hc⟩
  · rw [he]
    exact idle_lasts hg hi
  · rw [he]
    exact .calm (hc.toRemoved.shrunk.wanes hg.fresh).toAges (.of_eq hc.catalog) hworking
      (.of_eq rfl)

omit [LawfulUpstream B] in
/-- The record of an order placed since may become anything. -/
theorem Lasts.reconcile (h : Lasts s s') {o : AcceptedBulkOrder}
    (hp : s.PlacedSince s' o.orderId a) (cancel : Except String Bool) :
    Lasts s (s'.reconcile o cancel) ∧ (s'.reconcile o cancel).market = s'.market := by
  have hchange : ∀ {t : Table String OrderInfo},
      (∀ k o', t.lookup k = some o' → k = showOrderId B o.orderId ∨ s'.orders.lookup k = some o') →
      Lasts s { s' with orders := t } := by
    intro t ht
    refine ⟨h.next, h.home, h.books, fun k o' hl hw => ?_, h.quote⟩
    rcases ht k o' hl with rfl | hold
    · exact .inr ⟨o.orderId, a, rfl, hp⟩
    · exact h.order k o' hold hw
  unfold AppState.reconcile
  dsimp only
  split_ifs
  · refine ⟨hchange fun k o' hl => ?_, rfl⟩
    rw [Table.lookup_modify] at hl
    split_ifs at hl with hk
    · exact .inl hk
    · exact .inr hl
  · split
    · refine ⟨hchange fun k o' hl => ?_, rfl⟩
      rw [Table.lookup_erase_eq] at hl
      split_ifs at hl
      exact .inr hl
    · exact ⟨h, rfl⟩

/-- The rollback of a batch touches the records of its own orders only. -/
theorem rollbackOrders_lasts (hg : s'.Grounded) (h : Lasts s s') (items : List BulkOrderItem)
    (accepted : List AcceptedBulkOrder)
    (hp : ∀ o ∈ accepted, ∃ a, s.PlacedSince s' o.orderId a) :
    Lasts s (s'.rollbackOrders items accepted).2 := by
  have hall : (s'.rollbackOrders items accepted).2.Grounded ∧
      Lasts s (s'.rollbackOrders items accepted).2 ∧
      ∀ o ∈ accepted, ∃ a, s.PlacedSince (s'.rollbackOrders items accepted).2 o.orderId a := by
    unfold rollbackOrders
    apply List.foldlRecOn (motive := fun acc : Outcomes × AppState B F => acc.2.Grounded ∧
      Lasts s acc.2 ∧ ∀ o ∈ accepted, ∃ a, s.PlacedSince acc.2 o.orderId a)
    · exact ⟨hg, h, hp⟩
    · rintro acc ⟨hacc, hlasts, hplaced⟩ o ho
      unfold rollbackNext
      split
      · exact ⟨hacc, hlasts, hplaced⟩
      · rename_i item _
        have hcancel := cancelBulkItemOrder_lasts hacc item o.orderId
        have hlater : ∀ o' ∈ accepted, ∃ a,
            s.PlacedSince (acc.2.cancelBulkItemOrder item o.orderId).2 o'.orderId a := by
          intro o' ho'
          obtain ⟨a, ha⟩ := hplaced o' ho'
          exact ⟨a, ha.later hcancel.home hcancel.books⟩
        obtain ⟨a, ha⟩ := hlater o ho
        obtain ⟨hkept, hm⟩ := (hlasts.trans hcancel).reconcile ha
          (acc.2.cancelBulkItemOrder item o.orderId).1
        refine ⟨hacc.advance (rollbackOrder_advances hacc item o), hkept, fun o' ho' => ?_⟩
        obtain ⟨a', ha'⟩ := hlater o' ho'
        refine ⟨a', ha'.later (fun hh => ?_) (.of_eq (congrArg Exchange.toCatalog hm))⟩
        exact (congrArg (fun x => x.home o'.orderId) hm).trans hh
  exact hall.2.1

theorem bulkSubmitOrders_lasts (hg : s.Grounded) (body : BulkOrderRequest) :
    Lasts s (s.bulkSubmitOrders body).2 := by
  have hall : Lasts s (s.submitAll body.atomic body.orders).state :=
    submitAll_keeps hg (.refl s) _ fun item _ hg' h => h.trans (submitSingleOrder_lasts hg' item)
  have hadv := submitAll_advances hg body.atomic body.orders
  have hplaced := submitAll_placed hg.fresh body.atomic body.orders
  unfold bulkSubmitOrders
  split_ifs
  · exact .refl s
  · dsimp only
    unfold Batch.finish
    split
    · apply rollbackOrders_lasts (hg.advance hadv) hall
      intro o ho
      obtain ⟨item, a, -, hl, hid, hhome, -⟩ := hplaced.places o ho
      exact ⟨a, hid, hhome, (locate_ok hl).2.2.2.2⟩
    · exact hall

theorem restoreInfos_grows (x : Exchange B) (infos : List OrderbookSnapshotInfo) :
    Grows x (restoreInfos x infos).2 := by
  unfold restoreInfos
  apply List.foldlRecOn (motive := fun acc : RestoreTally × Exchange B => Grows x acc.2)
  · exact .of_eq rfl
  · intro acc hacc info _
    rcases restoreInfo_answer acc info with hi | ⟨a, snapshot, -, hr⟩
    · exact hacc.trans hi.grows
    · exact hacc.trans hr.grows

theorem restoreSnapshot_lasts (hg : s.Grounded) (snapshotId : String) :
    Lasts s (s.restoreSnapshot snapshotId).2 := by
  rcases restoreSnapshot_cases (s := s) snapshotId with he | ⟨stored, hst, he⟩
  · rw [he]
    exact .refl s
  · have hworking : ∀ key o, s.orders.lookup key = some o → o.Working →
        ∃ o, s.orders.lookup key = some o ∧ o.Working := fun _ o hl hw => ⟨o, hl, hw⟩
    rw [he]
    exact .calm (restoreInfos_ages hg.fresh (hg.saved snapshotId stored hst)).1
      (restoreInfos_grows _ _) hworking (.of_eq rfl)

end Parts

section Steps
variable [LawfulUpstream B] [F64 F]

theorem engine_lasts (hg : s.Grounded) (op : Operation F) :
    Lasts s { s with toDesk := op.apply s.toDesk } := by
  have ht := Desk.operation_tracks hg.fresh op
  exact ⟨ht.wanes.next, ht.wanes.home, .of_eq ht.catalog, fun _ o hl hw => .inl ⟨o, hl, hw⟩,
    ht.active⟩

/-- Every request but the removal of an underlying. -/
theorem step_lasts (hg : s.Grounded) {i : Request F} (hi : ∀ u, i ≠ .deleteUnderlying u) :
    Lasts s (s.step i) := by
  have hcancel : ∀ {s' : AppState B F} key o, s'.Grounded → Lasts s s' →
      Lasts s (s'.cancelTracked key o).2 :=
    fun key o hg' h => h.trans (cancelTracked_lasts hg' key o)
  cases i with
  | addOrder p body =>
    change Lasts s (s.addOrder p body).2
    unfold addOrder
    split
    · exact .refl s
    · exact submitLimit_lasts hg _ _ _ _
  | submitMarketOrder p body =>
    change Lasts s (s.submitMarketOrder p body).2
    unfold submitMarketOrder
    split
    · exact .refl s
    · exact submitMarket_lasts hg _ _ _
  | cancelOrder p key =>
    change Lasts s (s.cancelOrder p key).2
    unfold cancelOrder
    split
    · exact .refl s
    · exact cancelAt_lasts hg _ _ _
  | modifyOrder p key body =>
    change Lasts s (s.modifyOrder p key body).2
    unfold modifyOrder
    split
    · exact .refl s
    · rename_i hcheck
      obtain ⟨⟨style, -, hl⟩, -⟩ := target_locate (checkModifyOrder_ok hcheck).1
      exact replaceOrder_lasts hg (locate_ok hl).2.2.2.2 _ _ _ _ _ _
  | bulkSubmitOrders body => exact bulkSubmitOrders_lasts hg body
  | bulkCancelOrders keys => exact bulkCancelOrders_keeps hg (.refl s) fun key _ _ => hcancel key _
  | cancelAllOrders q => exact cancelAllOrders_keeps hg (.refl s) fun _ _ _ => hcancel _ _
  | createSnapshot id =>
    exact .calm (.refl hg.fresh) (.of_eq rfl) (fun _ o hl hw => ⟨o, hl, hw⟩) (.of_eq rfl)
  | restoreSnapshot id => exact restoreSnapshot_lasts hg id
  | createUnderlying u => exact idle_lasts hg (getOrCreate_idle _ u)
  | createExpiration u expStr =>
    change Lasts s (s.createExpiration u expStr).2
    unfold createExpiration
    split
    · exact .refl s
    · exact idle_lasts hg ((getOrCreate_idle _ u).trans (getOrCreateExpiration_idle _ u _))
  | createStrike u expStr strike =>
    change Lasts s (s.createStrike u expStr strike).2
    unfold createStrike
    split
    · exact .refl s
    · exact idle_lasts hg (((getOrCreate_idle _ u).trans
        (getOrCreateExpiration_idle _ u _)).trans (getOrCreateStrike_idle _ u _ strike))
  | deleteUnderlying u => exact absurd rfl (hi u)
  | cleanupOldOrders age =>
    apply foldl_keeps (fun s : AppState B F => s) AppState.untrack
      (fun _ key hacc => (Advances.refl hacc.fresh).untrack key) _ s hg (.refl s)
    intro s' key _ hg' h
    exact h.trans (.calm (.refl hg'.fresh) (.of_eq rfl) (fun _ _ hl hw => working_of_erase hl hw)
      (.of_eq rfl))
  | engine op => exact engine_lasts hg op
  | tick ms =>
    exact .calm ((tick_shrunk _ ms).wanes hg.fresh).toAges (.of_eq rfl)
      (fun _ o hl hw => ⟨o, hl, hw⟩) (.of_eq rfl)

end Steps
end AppState

/-- The process with a record of removals: how often each underlying was removed, and how often its
underlying had been when an order was placed. -/
structure Traced (B F : Type) where
  state : AppState B F
  removals : String → ℕ
  era : OrderId → ℕ

namespace Traced
open AppState

variable {B F : Type} [Upstream B] [F64 F] {t : Traced B F} {i : OrderId} {a : OptionAddr}

def Start (t : Traced B F) : Prop := t.state.Start ∧ t.removals = fun _ => 0

def countRemoval (t : Traced B F) : Request F → String → ℕ
  | .deleteUnderlying u =>
    if t.state.market.get u then Function.update t.removals u (t.removals u + 1) else t.removals
  | _ => t.removals

def dateOrder (t : Traced B F) (s' : AppState B F) (i : OrderId) : ℕ :=
  match t.state.market.home i, s'.market.home i with
  | none, some a => t.removals a.underlying
  | _, _ => t.era i

def step (t : Traced B F) (r : Request F) : Traced B F :=
  ⟨t.state.step r, t.countRemoval r, t.dateOrder (t.state.step r)⟩

/-- Order `i` was placed on `a`, whose book exists and is still the one of that time. -/
structure OnOwnBook (t : Traced B F) (i : OrderId) (a : OptionAddr) : Prop where
  home : t.state.market.home i = some a
  book : t.state.market.hasBook a = true
  same : t.era i = t.removals a.underlying

/-- Every working order and every order the engine tracks names the book it was placed on. -/
structure Stands (t : Traced B F) : Prop where
  orders : ∀ key o, t.state.orders.lookup key = some o → o.Working →
    ∃ i a, key = showOrderId B i ∧ o.Addresses B a ∧ t.OnOwnBook i a
  quotes : ∀ i o, t.state.engine.activeOrders.lookup i = some o → t.OnOwnBook i o.addr

/-- Nothing works under the underlying, and the engine tracks nothing under it. -/
structure Unused (s : AppState B F) (underlying : String) : Prop where
  orders : ∀ key o, s.orders.lookup key = some o → o.Working → o.underlying ≠ underlying
  quotes : ∀ i o, s.engine.activeOrders.lookup i = some o → o.symbol ≠ underlying

/-- An underlying that exists is removed only when it is unused. -/
def Spares (t : Traced B F) : Request F → Prop
  | .deleteUnderlying u => t.state.market.get u = true → Unused t.state u
  | _ => True

omit [Upstream B] [F64 F] in
theorem dateOrder_old (h : t.state.market.home i = some a) (s' : AppState B F) :
    t.dateOrder s' i = t.era i := by
  unfold dateOrder
  rw [h]

omit [F64 F] in
theorem dateOrder_new {s' : AppState B F} (hg : t.state.Grounded)
    (h : t.state.PlacedSince s' i a) : t.dateOrder s' i = t.removals a.underlying := by
  have hnone : t.state.market.home i = none := by
    cases hh : t.state.market.home i with
    | none => rfl
    | some b => exact absurd (hg.fresh.home hh) (Nat.not_lt.mpr h.1)
  unfold dateOrder
  rw [hnone, h.2.1]

variable [LawfulUpstream B]

theorem Stands.step_kept (h : t.Stands) (hg : t.state.Grounded) (ha : t.state.Addressed)
    {r : Request F} (hr : ∀ u, r ≠ .deleteUnderlying u) : (t.step r).Stands := by
  have hl := step_lasts hg hr
  have hcount : t.countRemoval r = t.removals := by
    cases r with
    | deleteUnderlying u => exact absurd rfl (hr u)
    | _ => rfl
  have hold : ∀ {i a}, t.OnOwnBook i a → (t.step r).OnOwnBook i a := fun {i a} ho =>
    ⟨hl.home ho.home, hl.books a ho.book,
      (dateOrder_old ho.home _).trans (ho.same.trans (congrFun hcount _).symm)⟩
  have hnew : ∀ {i a}, t.state.PlacedSince (t.state.step r) i a → (t.step r).OnOwnBook i a :=
    fun {i a} hp => ⟨hp.2.1, hp.2.2, (dateOrder_new hg hp).trans (congrFun hcount _).symm⟩
  constructor
  · intro key o ho hw
    obtain ⟨i, a, rfl, hhome, haddr⟩ :=
      addressed_partsKeep.calls.step addressed_partsKeep.rest hg ha r key o ho
    have hown : ∃ b, (t.step r).OnOwnBook i b := by
      rcases hl.order _ o ho hw with ⟨o₀, ho₀, hw₀⟩ | ⟨j, b, hk, hp⟩
      · obtain ⟨j, b, hk, -, hb⟩ := h.orders _ o₀ ho₀ hw₀
        obtain rfl := showOrderId_injective hk
        exact ⟨b, hold hb⟩
      · obtain rfl := showOrderId_injective hk
        exact ⟨b, hnew hp⟩
    obtain ⟨b, hb⟩ := hown
    obtain rfl : a = b := Option.some.inj (hhome.symm.trans hb.home)
    exact ⟨i, a, rfl, haddr, hb⟩
  · intro i o ho
    rcases hl.quote i o ho with ⟨o₀, ho₀, haddr⟩ | hp
    · exact haddr ▸ hold (h.quotes i o₀ ho₀)
    · exact hnew hp

omit [LawfulUpstream B] in
theorem step_delete {u : String} (hu : t.state.market.get u = true) :
    t.state.step (.deleteUnderlying u) = t.state.withMarket (t.state.market.remove u) := by
  show (t.state.deleteUnderlying u).2 = _
  unfold deleteUnderlying
  rw [if_pos hu]

omit [LawfulUpstream B] in
/-- The removal of an unused underlying leaves every working order its book. -/
theorem Stands.remove (h : t.Stands) {u : String} (hu : t.state.market.get u = true)
    (hfree : Unused t.state u) : (t.step (.deleteUnderlying u)).Stands := by
  have hstate : (t.step (.deleteUnderlying u)).state =
      t.state.withMarket (t.state.market.remove u) := step_delete hu
  have hown : ∀ {i a}, t.OnOwnBook i a → a.underlying ≠ u →
      (t.step (.deleteUnderlying u)).OnOwnBook i a := by
    intro i a ho hne
    refine ⟨?_, ?_, ?_⟩
    · rw [hstate]
      exact ho.home
    · rw [hstate]
      exact (remove_hasBook _ hne).trans ho.book
    · have hcount : t.countRemoval (.deleteUnderlying u) a.underlying = t.removals a.underlying := by
        simp [countRemoval, hu, hne]
      exact (dateOrder_old ho.home _).trans (ho.same.trans hcount.symm)
  constructor
  · intro key o ho hw
    rw [hstate] at ho
    obtain ⟨i, a, hk, haddr, hb⟩ := h.orders key o ho hw
    exact ⟨i, a, hk, haddr, hown hb (haddr.underlying ▸ hfree.orders key o ho hw)⟩
  · intro i o ho
    rw [hstate] at ho
    exact hown (h.quotes i o ho) (hfree.quotes i o ho)

omit [LawfulUpstream B] in
/-- What still works under a removed underlying has lost its book. -/
theorem unused_of_stands {u : String} (hu : t.state.market.get u = true)
    (h : (t.step (.deleteUnderlying u)).Stands) : Unused t.state u := by
  have hstate : (t.step (.deleteUnderlying u)).state =
      t.state.withMarket (t.state.market.remove u) := step_delete hu
  have hgone : ∀ {i a}, (t.step (.deleteUnderlying u)).OnOwnBook i a → a.underlying ≠ u := by
    intro i a ho hau
    have hb := ho.book
    rw [hstate] at hb
    simp [Catalog.hasBook, Catalog.get, Exchange.remove, withMarket, hau] at hb
  constructor
  · intro key o ho hw hou
    obtain ⟨i, a, -, haddr, hb⟩ := h.orders key o (hstate ▸ ho) hw
    exact hgone hb (haddr.underlying ▸ hou)
  · intro i o ho
    exact hgone (h.quotes i o (hstate ▸ ho))

/-- A step leaves every working order its book exactly when it spares the underlyings in use. -/
theorem Stands.step_iff (h : t.Stands) (hg : t.state.Grounded) (ha : t.state.Addressed)
    (r : Request F) : (t.step r).Stands ↔ t.Spares r := by
  cases r with
  | deleteUnderlying u =>
    by_cases hu : t.state.market.get u = true
    · exact ⟨fun hs _ => unused_of_stands hu hs, fun hok => h.remove hu (hok hu)⟩
    · have hstate : (t.step (.deleteUnderlying u)).state = t.state := by
        show (t.state.deleteUnderlying u).2 = t.state
        unfold deleteUnderlying
        rw [if_neg hu]
      have hown : ∀ {i a}, t.OnOwnBook i a → (t.step (.deleteUnderlying u)).OnOwnBook i a := by
        intro i a ho
        refine ⟨?_, ?_, (dateOrder_old ho.home _).trans ?_⟩
        · rw [hstate]
          exact ho.home
        · rw [hstate]
          exact ho.book
        · simpa [step, countRemoval, hu] using ho.same
      refine iff_of_true ⟨fun key o ho hw => ?_, fun i o ho => ?_⟩ fun hget => absurd hget hu
      · obtain ⟨i, a, hk, haddr, hb⟩ := h.orders key o (hstate ▸ ho) hw
        exact ⟨i, a, hk, haddr, hown hb⟩
      · exact hown (h.quotes i o (hstate ▸ ho))
  | _ => exact iff_of_true (h.step_kept hg ha (fun _ => nofun)) trivial

section Reference
open AppState

/-- No underlying was removed yet. -/
def reference : Traced ReferenceBook ℚ := ⟨AppState.reference, fun _ => 0, fun _ => 0⟩

theorem reference_start : reference.Start := ⟨AppState.reference_start, rfl⟩

/-- A sell rests on the one book of an underlying. -/
def oneSell : List (Request ℚ) :=
  [.addOrder ⟨"BTC", "30", 10000, "call"⟩ ⟨.sell, 100, 5, none, none⟩]

/-- Its underlying is removed; then a strike of the same name is created. -/
def sellRemoved : List (Request ℚ) := oneSell ++ [.deleteUnderlying "BTC"]

def sellRecreated : List (Request ℚ) := sellRemoved ++ [.createStrike "BTC" "30" 10000]

/-- Another underlying comes and goes. -/
def ethCreated : List (Request ℚ) := oneSell ++ [.createUnderlying "ETH"]

def ethRemoved : List (Request ℚ) := ethCreated ++ [.deleteUnderlying "ETH"]

end Reference
end Traced
end OptionChainBackend
