import OptionChainBackend.Api.Batch
import OptionChainBackend.Api.Parts

/-!
The side and the price of a tracked order. Whatever rests under its id, on a book or in a stored
snapshot, rests on the side and at the price its record gives.
-/
namespace OptionChainBackend
open Foundation Upstream MarketMaker Exchange

namespace Exchange
variable {B : Type} [Upstream B] {x x' x'' : Exchange B} {a : OptionAddr} {i : OrderId}
  {side : Side} {limit : Option ℕ} {q : ℕ} {r : MatchResult} {left : Option RestingOrder}

/-- Nothing that rests under an issued id has moved to another side or price. -/
structure Stays (x x' : Exchange B) : Prop where
  next : x.nextOrderId ≤ x'.nextOrderId
  order : ∀ c i o', x'.getOrder c i = some o' → x.nextOrderId ≤ i ∨
    ∃ o, x.getOrder c i = some o ∧ o'.side = o.side ∧ o'.price = o.price

namespace Stays

theorem trans (h : Stays x x') (h' : Stays x' x'') : Stays x x'' where
  next := h.next.trans h'.next
  order c i o'' ho'' := by
    rcases h'.order c i o'' ho'' with hnew | ⟨o', ho', hside', hprice'⟩
    · exact .inl (h.next.trans hnew)
    · rcases h.order c i o' ho' with hnew | ⟨o, ho, hside, hprice⟩
      · exact .inl hnew
      · exact .inr ⟨o, ho, hside'.trans hside, hprice'.trans hprice⟩

theorem of_quiet (h : Quiet x x') : Stays x x' where
  next := h.nextOrderId
  order c i o ho := .inr ⟨o, (h.getOrder c i).symm.trans ho, rfl, rfl⟩

theorem of_shrunk (h : Shrunk x x') : Stays x x' where
  next := h.nextOrderId.ge
  order c i o ho := by
    rcases h.getOrder c i with hsame | hnone
    · exact .inr ⟨o, hsame.symm.trans ho, rfl, rfl⟩
    · rw [hnone] at ho
      cases ho

/-- A maker that is not filled whole stays where it was. -/
theorem of_submitted (h : Submitted x x' a side limit q r left) : Stays x x' where
  next := h.nextOrderId ▸ Nat.le_succ _
  order c i o ho := by
    have hget := h.filled.getOrder c i
    rw [ho] at hget
    split_ifs at hget with hc hi
    · exact .inl hi.ge
    · subst hc
      obtain ⟨m, hm, hreduce⟩ := Option.bind_eq_some_iff.mp hget.symm
      obtain ⟨-, rfl⟩ := RestingOrder.reduce_some hreduce
      exact .inr ⟨m, hm, rfl, rfl⟩
    · exact .inr ⟨o, hget.symm, rfl, rfl⟩

end Stays
end Exchange

namespace MarketMaker.Desk
variable {B F : Type} [Upstream B] [LawfulUpstream B] [F64 F]

theorem operation_stays {d : Desk B F} (hx : d.market.Fresh) (op : Operation F) :
    Stays d.market (op.apply d).market := by
  apply And.right (a := (op.apply d).market.Fresh)
  apply PartsKeep.operation (P := fun d' => d'.market.Fresh ∧ Stays d.market d'.market)
  · constructor
    · exact fun d' e h => h
    · intro d' a i h
      refine ⟨(cancelOrder_wanes h.1 a i).fresh, h.2.trans ?_⟩
      show Stays d'.market (d'.market.cancelOrder a i).2
      cases hc : d'.market.cancelOrder a i with
      | mk res x =>
        by_cases hres : res = .ok true
        · subst hres
          exact .of_shrunk (cancel_true hc).shrunk
        · exact .of_quiet (cancel_quiet hc hres)
    · intro d' a isBuy p q h
      rcases placeOnBook_submits h.1 a isBuy p q with ⟨x, he, hidle⟩ | ⟨x, r, he, hs⟩
      · rw [he]
        exact ⟨h.1.quiet hidle.toQuiet, h.2.trans (.of_quiet hidle.toQuiet)⟩
      · rw [he]
        exact ⟨(hs.wanes h.1).fresh, h.2.trans (.of_submitted hs)⟩
  · exact ⟨hx, .of_quiet (.refl _)⟩

end MarketMaker.Desk

namespace AppState
variable {B F : Type} [Upstream B] {s s' : AppState B F} {i : OrderId} {a : OptionAddr}
  {side : Side} {price : ℕ}

/-- Whatever is kept under the id `i` is an order on this side and at this price. -/
structure RestsAs (s : AppState B F) (i : OrderId) (side : Side) (price : ℕ) : Prop where
  resting : ∀ c o, s.market.getOrder c i = some o → o.side = side ∧ o.price = price
  saved : ∀ id stored, s.snapshots.lookup id = some stored → ∀ info ∈ stored.infos,
    ∀ snapshot, parseSnapshot B info.data = .ok snapshot → ∀ o ∈ snapshot.orders,
      o.id = i → o.side = side ∧ o.price = price

theorem RestsAs.stays (h : s.RestsAs i side price) (hi : i < s.market.nextOrderId)
    (hm : Stays s.market s'.market) (hsn : s'.snapshots = s.snapshots) :
    s'.RestsAs i side price where
  resting c o' ho' := by
    rcases hm.order c i o' ho' with hnew | ⟨o, ho, hside, hprice⟩
    · exact absurd hi (Nat.not_lt.mpr hnew)
    · obtain ⟨hs, hp⟩ := h.resting c o ho
      exact ⟨hside.trans hs, hprice.trans hp⟩
  saved id stored hst := h.saved id stored (hsn ▸ hst)

/-- What is left of a new order is all there is under its id. -/
theorem RestsAs.submitted {x : Exchange B} {limit : Option ℕ} {q : ℕ} {r : MatchResult}
    {left : Option RestingOrder} (hg : s.Grounded)
    (hs : Submitted s.market x a side limit q r left)
    (hleft : ∀ o, left = some o → o.side = side ∧ o.price = price) (hm : s'.market = x)
    (hsn : s'.snapshots = s.snapshots) : s'.RestsAs s.market.nextOrderId side price where
  resting c o ho := by
    have hget := hs.filled.getOrder c s.market.nextOrderId
    have habs : s.market.newOrderId.2.getOrder c s.market.nextOrderId = none :=
      hg.fresh.absent le_rfl
    rw [← hm, ho, habs, if_pos rfl] at hget
    split_ifs at hget
    exact hleft o hget.symm
  saved id stored hst info hmem snapshot hp o ho hid := by
    have hissued := hg.saved id stored (hsn ▸ hst) info hmem snapshot hp o ho
    exact absurd hid hissued.ne

/-- A record gives the side and the price of its order. -/
def Priced (s : AppState B F) : Prop :=
  ∀ i o, s.orders.lookup (showOrderId B i) = some o → s.RestsAs i o.side o.price

theorem rested_at {id : OrderId} {tif : TimeInForce} {r : MatchResult} (o : RestingOrder)
    (h : rested id side price tif r = some o) : o.side = side ∧ o.price = price := by
  unfold rested at h
  split_ifs at h
  obtain rfl := Option.some.inj h
  exact ⟨rfl, rfl⟩

/-- Every accepted order of a batch rests, if it does, as its item says. -/
theorem submitAll_restsAs [LawfulUpstream B] (hg : s.Grounded) (atomic : Bool)
    (items : List BulkOrderItem) : ∀ o ∈ (s.submitAll atomic items).accepted,
      ∃ item, items[o.index]? = some item ∧
        (s.submitAll atomic items).state.RestsAs o.orderId item.side item.price := by
  induction items using List.reverseRecOn with
  | nil => exact fun o ho => by cases ho
  | append_singleton items item ih =>
    have hg' := hg.advance (submitAll_advances hg atomic items)
    have hissued := fun o => (submitAll_placed hg.fresh atomic items).issued (o := o)
    have hold : ∀ o ∈ (s.submitAll atomic items).accepted, ∃ item',
        (items ++ [item])[o.index]? = some item' ∧
          (s.submitAll atomic items).state.RestsAs o.orderId item'.side item'.price := by
      intro o ho
      obtain ⟨item', hget, hrests⟩ := ih o ho
      refine ⟨item', ?_, hrests⟩
      rw [List.getElem?_append_left (List.getElem?_eq_some_iff.mp hget).1]
      exact hget
    rw [submitAll_concat]
    cases hb : (s.submitAll atomic items).failed with
    | some f =>
      rw [Batch.next_failed hb]
      exact hold
    | none =>
      rcases Batch.next_cases hb atomic item items.length with ⟨a, r, hsome, he⟩ | ⟨e, hnone, he⟩
      · obtain ⟨hl, hs⟩ := placeItem_accepted hg'.fresh hsome
        obtain ⟨-, hu, -, -, -⟩ := locate_ok hl
        have hr := acceptItem_recorded (s := (s.submitAll atomic items).state)
          (x := ((s.submitAll atomic items).state.market.placeItem item).2) item
          (s.submitAll atomic items).state.market.nextOrderId hu hs.filled.matched.positive
        rw [he]
        intro o ho
        rcases List.mem_append.mp ho with ho | ho
        · obtain ⟨item', hget, hrests⟩ := hold o ho
          refine ⟨item', hget, hrests.stays (hissued o ho) ?_ hr.snapshots⟩
          rw [hr.market]
          exact .of_submitted hs
        · obtain rfl := List.mem_singleton.mp ho
          exact ⟨item, by simp, .submitted hg' hs (fun o => rested_at o) hr.market hr.snapshots⟩
      · have hstays := Stays.of_quiet (placeItem_refused hg'.fresh hnone).toQuiet
        have hkept : ∀ o ∈ (s.submitAll atomic items).accepted, ∃ item',
            (items ++ [item])[o.index]? = some item' ∧
              ((s.submitAll atomic items).state.withMarket
                ((s.submitAll atomic items).state.market.placeItem item).2).RestsAs o.orderId
                  item'.side item'.price := by
          intro o ho
          obtain ⟨item', hget, hrests⟩ := hold o ho
          exact ⟨item', hget, hrests.stays (hissued o ho) hstays rfl⟩
        rw [he]
        split_ifs <;> exact hkept

namespace Priced
variable [LawfulUpstream B]

/-- Neither the books nor the records move an order. -/
theorem keep (h : s.Priced) (hg : s.Grounded) (hm : Stays s.market s'.market)
    (hsn : s'.snapshots = s.snapshots)
    (ho : ∀ key o', s'.orders.lookup key = some o' → ∃ o, s.orders.lookup key = some o ∧
      o'.side = o.side ∧ o'.price = o.price) : s'.Priced := by
  intro i o' ho'
  obtain ⟨o, hold, hside, hprice⟩ := ho _ o' ho'
  obtain ⟨j, a, hk, -, hh, -⟩ := hg.tracked _ o hold
  obtain rfl := showOrderId_injective hk
  rw [hside, hprice]
  exact (h i o hold).stays (hg.fresh.home hh) hm hsn

theorem withMarket (h : s.Priced) (hg : s.Grounded) {x : Exchange B} (hm : Stays s.market x) :
    (s.withMarket x).Priced := h.keep hg hm rfl fun _ o ho => ⟨o, ho, rfl, rfl⟩

/-- An order is placed and tracked. -/
theorem insert (h : s.Priced) (hg : s.Grounded) (info : OrderInfo) {x : Exchange B}
    {limit : Option ℕ} {q : ℕ} {r : MatchResult} {left : Option RestingOrder}
    (hs : Submitted s.market x a info.side limit q r left)
    (hleft : ∀ o, left = some o → o.side = info.side ∧ o.price = info.price)
    (hm : s'.market = x) (hsn : s'.snapshots = s.snapshots)
    (ho : s'.orders = s.orders.insert (showOrderId B s.market.nextOrderId) info) :
    s'.Priced := by
  intro i o' ho'
  rw [ho, Table.lookup_insert_eq] at ho'
  split_ifs at ho' with hk
  · obtain rfl := Option.some.inj ho'
    obtain rfl := showOrderId_injective hk
    exact .submitted hg hs hleft hm hsn
  · obtain ⟨j, a, hkey, -, hh, -⟩ := hg.tracked _ o' ho'
    obtain rfl := showOrderId_injective hkey
    apply (h i o' ho').stays (hg.fresh.home hh) _ hsn
    rw [hm]
    exact .of_submitted hs

omit [LawfulUpstream B] in
theorem erase (h : s.Priced) (key : String) : (s.untrack key).Priced := by
  intro i o ho
  simp only [AppState.untrack, Table.lookup_erase_eq] at ho
  split_ifs at ho
  exact ⟨(h i o ho).resting, (h i o ho).saved⟩

omit [LawfulUpstream B] in
theorem modify (h : s.Priced) (key : String) (f : OrderInfo → OrderInfo)
    (hf : ∀ o, (f o).side = o.side ∧ (f o).price = o.price) :
    AppState.Priced { s with orders := s.orders.modify key f } := by
  intro i o' ho'
  rw [Table.lookup_modify] at ho'
  split_ifs at ho' with hk
  · obtain ⟨o, ho, rfl⟩ := Option.map_eq_some_iff.mp ho'
    subst hk
    rw [(hf o).1, (hf o).2]
    exact ⟨(h i o ho).resting, (h i o ho).saved⟩
  · exact ⟨(h i o' ho').resting, (h i o' ho').saved⟩

omit [LawfulUpstream B] in
theorem reported (h : s.Priced) (hr : Reported s s') : s'.Priced := by
  intro i o ho
  have hi := h i o (hr.orders ▸ ho)
  refine ⟨fun c o' ho' => hi.resting c o' ?_, fun id stored hst => hi.saved id stored ?_⟩
  · rw [← hr.market]
    exact ho'
  · rw [← hr.snapshots]
    exact hst

/-- A cancelled order is no longer tracked. -/
theorem cancelled (h : s.Priced) (hg : s.Grounded) {x : Exchange B}
    (hc : Cancelled s.market x a i) (key : String) : ((s.withMarket x).untrack key).Priced :=
  (h.withMarket hg (.of_shrunk hc.toRemoved.shrunk)).erase key

theorem replaceOrder (h : s.Priced) (hg : s.Grounded) (expStr key : String) (id : OrderId)
    (o : RestingOrder) (newPrice q : ℕ) :
    (s.replaceOrder expStr key a id o newPrice q).2.Priced := by
  rcases replaceOrder_cases (s := s) expStr key a id o newPrice q with ⟨x, he, hi⟩ | ⟨x, he, -, hc⟩
  · rw [he]
    exact h.withMarket hg (.of_quiet hi.toQuiet)
  · have hr := publishLevelDelta_reported (s := (s.withMarket x).untrack key) a o.side o.price
    have hpriced := (h.cancelled hg hc key).reported hr
    have hg' := hg.advance (((Advances.withMarket
      (hc.toRemoved.shrunk.wanes hg.fresh)).untrack key).reported hr)
    rw [he]
    rcases placeReplacement_cases hg'.fresh expStr key a o.side newPrice q with
      ⟨x', he', hi'⟩ | ⟨r, x', he', -, hs'⟩
    · rw [he']
      exact hpriced.withMarket hg' (.of_quiet hi'.toQuiet)
    · rw [he']
      exact hpriced.insert hg' (replacementInfo B x'.now expStr a o.side newPrice q _) hs'
        (fun o => rested_at o) rfl rfl rfl

theorem rollbackOrder (h : s.Priced) (hg : s.Grounded) (item : BulkOrderItem)
    (o : AcceptedBulkOrder) : (s.rollbackOrder item o).2.Priced := by
  have hcancel : (s.cancelBulkItemOrder item o.orderId).2.Priced := by
    rcases cancelBulkItemOrder_cases (s := s) item o.orderId with
      ⟨res, x, he, hi, -⟩ | ⟨a, x, he, -, hc⟩
    · rw [he]
      exact h.withMarket hg (.of_quiet hi.toQuiet)
    · rw [he]
      exact (h.withMarket hg (.of_shrunk hc.toRemoved.shrunk)).reported
        (publishLevelDelta_reported _ _ _)
  have hrolled : ∀ o' : OrderInfo, ∀ q cleared now, (o'.rolledBack q cleared now).side = o'.side ∧
      (o'.rolledBack q cleared now).price = o'.price := by
    intro o' q cleared now
    unfold OrderInfo.rolledBack
    split_ifs <;> exact ⟨rfl, rfl⟩
  unfold AppState.rollbackOrder
  dsimp only
  unfold reconcile
  dsimp only
  split_ifs
  · exact hcancel.modify _ _ fun o' => hrolled o' _ _ _
  · split
    · exact hcancel.erase _
    · exact hcancel

theorem createSnapshot (h : s.Priced) (id : String) : (s.createSnapshot id).2.Priced := by
  intro i o ho
  have hi := h i o ho
  refine ⟨hi.resting, fun id' stored hst info hmem snapshot hp r hr hid => ?_⟩
  have hst := evictOldest_iterate_lookup _ hst
  rw [Table.lookup_insert_eq] at hst
  split_ifs at hst
  · obtain rfl := Option.some.inj hst
    obtain ⟨a, -, -, -, -, hpa⟩ := saveBooks_mem hmem
    rw [hp] at hpa
    rw [Except.ok.inj hpa] at hr
    exact hi.resting a r (hid ▸ (LawfulUpstream.mem_snapshot _ r).mp hr)
  · exact hi.saved id' stored hst info hmem snapshot hp r hr hid

theorem restoreSnapshot (h : s.Priced) (id : String) : (s.restoreSnapshot id).2.Priced := by
  rcases restoreSnapshot_cases (s := s) id with he | ⟨stored, hst, he⟩
  · rw [he]
    exact h
  · rw [he]
    intro i o ho
    have hi := h i o ho
    refine ⟨fun c r hr => ?_, hi.saved⟩
    rcases restoreInfos_getOrder s.market stored.infos hr with
      hold | ⟨info, hmem, snapshot, hp, hsaved, hid⟩
    · exact hi.resting c r hold
    · exact hi.saved id stored hst info hmem snapshot hp r hsaved hid

theorem calls : CallsKeep (Priced (B := B) (F := F)) where
  limit {s p body a tif} hg h _ := by
    rcases submitLimit_cases hg.fresh p.expStr a tif body with ⟨x, he, hi⟩ | ⟨r, x, he, -, hs⟩
    · rw [he]
      exact h.withMarket hg (.of_quiet hi.toQuiet)
    · obtain ⟨hr, ho⟩ := acceptLimit_recorded (s := s) (x := x) (a := a) p.expStr body
        s.market.nextOrderId hs.filled.matched.positive
      rw [he]
      exact h.insert hg (addedInfo B x.now a body _ r) hs (fun o => rested_at o) hr.market
        hr.snapshots ho
  market {s p body a} hg h _ := by
    rcases submitMarket_cases hg.fresh p.expStr a body with ⟨x, he, hi⟩ | ⟨r, x, he, -, hs⟩
    · rw [he]
      exact h.withMarket hg (.of_quiet hi.toQuiet)
    · obtain ⟨hr, ho⟩ := acceptMarket_recorded (s := s) (x := x) (a := a) p.expStr body.side
        hs.filled.matched.positive
      rw [he]
      apply h.keep hg _ hr.snapshots fun key o' ho' => ⟨o', ho ▸ ho', rfl, rfl⟩
      rw [hr.market]
      exact .of_submitted hs
  item {s} item hg h := by
    rcases submitSingleOrder_cases s item with ⟨e, hnone, he⟩ | ⟨a, r, hsome, he⟩
    · rw [he]
      exact h.withMarket hg (.of_quiet (placeItem_refused hg.fresh hnone).toQuiet)
    · obtain ⟨hl, hs⟩ := placeItem_accepted hg.fresh hsome
      obtain ⟨-, hu, -, -, -⟩ := locate_ok hl
      have hr := acceptItem_recorded (s := s) (x := (s.market.placeItem item).2) item
        s.market.nextOrderId hu hs.filled.matched.positive
      rw [he]
      exact h.insert hg (itemInfo B _ item _ r) hs (fun o => rested_at o) hr.market
        hr.snapshots (acceptItem_orders _ _)
  delete {s p key a id} hg h _ := by
    rcases cancelAt_cases (s := s) a id key with
      ⟨e, x, he, -, hi⟩ | ⟨x, he, -, hc⟩ | ⟨x, he, -, hi, -⟩
    · rw [he]
      exact h.withMarket hg (.of_quiet hi.toQuiet)
    · rw [he]
      exact (h.cancelled hg hc key).reported (publishCancelled_reported a _)
    · rw [he]
      exact (h.withMarket hg (.of_quiet hi.toQuiet)).modify key _ fun o => ⟨rfl, rfl⟩
  replace o price q hg h _ _ := h.replaceOrder hg _ _ _ o price q
  cancel {s} key o hg h := by
    rcases cancelTracked_cases (s := s) key o with ⟨e, x, he, hi, -⟩ | ⟨a, id, x, he, -, hc⟩
    · rw [he]
      exact h.withMarket hg (.of_quiet hi.toQuiet)
    · rw [he]
      exact (h.cancelled hg hc key).reported (publishLevelDelta_reported _ _ _)
  rollback item o hg h := h.rollbackOrder hg item o
  untrack key _ h := h.erase key
  save id _ h := h.createSnapshot id
  restore id _ h := h.restoreSnapshot id

theorem rest [F64 F] : RestKeeps (Priced (B := B) (F := F)) where
  idle _ hg h hi _ := h.withMarket hg (.of_quiet hi.toQuiet)
  remove u hg h := h.withMarket hg (.of_shrunk (remove_shrunk _ u))
  engine op hg h := h.keep hg (Desk.operation_stays hg.fresh op) rfl
    fun _ o ho => ⟨o, ho, rfl, rfl⟩
  tick ms hg h := h.withMarket hg (.of_shrunk (tick_shrunk _ ms))

/-- It holds in every run. -/
theorem reached [F64 F] {ok : AppState B F → Request F → Prop} (h : Reaches Start step ok s) :
    s.Grounded ∧ s.Priced := by
  apply calls.reaches rest _ h
  rintro s ⟨quoter, rfl⟩ i o ho
  have hnone : (∅ : Table String OrderInfo).lookup (showOrderId B i) = some o := ho
  simp at hnone

end Priced
end AppState
end OptionChainBackend
