import OptionChainBackend.Api.Accuracy

/-!
PATCH of an order. `modify_order` cancels the order and places a new one from what it read off the
book: the side, and the price and quantity where none are asked for. The replacement is always GTC.
-/
namespace OptionChainBackend
open Foundation Upstream MarketMaker Exchange

/-- The time-in-force as it is tracked, without an expiry. -/
def TimeInForce.tracked : TimeInForce → OrderTimeInForce
  | .gtc => .gtc
  | .ioc => .ioc
  | .fok => .fok
  | .gtd _ => .gtd

namespace AppState
variable {B F : Type} [Upstream B] {s s' : AppState B F} {p : OptionPath} {key : String}
  {body : ModifyOrderRequest} {a : OptionAddr} {id : OrderId} {o : RestingOrder} {price q : ℕ}

/-- Between `s` and `s'` order `id`, which rested as `o`, was replaced by one that differs from it
in the price and the quantity asked for, on the book and in the tracking, and nothing else. -/
structure Replaced (s s' : AppState B F) (body : ModifyOrderRequest) (a : OptionAddr) (id : OrderId)
    (o : RestingOrder) : Prop where
  books : ∀ c j, s'.market.getOrder c j =
    if c = a ∧ j = id then none
    else if c = a ∧ j = s.market.nextOrderId then
      some ⟨s.market.nextOrderId, o.side, body.price.getD o.price,
        body.quantity.getD o.visibleQuantity, o.timeInForce⟩
    else s.market.getOrder c j
  tracked : ∃ info, s'.orders.lookup (showOrderId B s.market.nextOrderId) = some info ∧
    info.orderId = showOrderId B s.market.nextOrderId ∧ info.Names a ∧ info.side = o.side ∧
    info.price = body.price.getD o.price ∧
    info.originalQuantity = body.quantity.getD o.visibleQuantity ∧
    info.remainingQuantity = body.quantity.getD o.visibleQuantity ∧ info.filledQuantity = 0 ∧
    info.status = .active ∧ info.timeInForce = o.timeInForce.tracked
  untracked : s'.orders.lookup (showOrderId B id) = none
  others : ∀ other, other ≠ showOrderId B id → other ≠ showOrderId B s.market.nextOrderId →
    s'.orders.lookup other = s.orders.lookup other

/-- No resting order of the other side is within reach of an order at this price. -/
def Uncrossed (x : Exchange B) (a : OptionAddr) (side : Side) (price : ℕ) : Prop :=
  ∀ j o, x.getOrder a j = some o → o.side = side.opposite → ¬ Crosses side (some price) o.price

variable [LawfulUpstream B]

/-- A replacement that was placed. -/
theorem placeReplacement_modified (hf : s.market.Fresh) {expStr : String} {side : Side}
    (h : (s.placeReplacement expStr key a side price q).1.status = .modified) :
    ∃ x r, Submitted s.market x a side (some price) q r
        (rested s.market.nextOrderId side price .gtc r) ∧
      (s.placeReplacement expStr key a side price q).1.orderId =
        showOrderId B s.market.nextOrderId ∧
      (s.placeReplacement expStr key a side price q).2.market = x ∧
      (s.placeReplacement expStr key a side price q).2.orders =
        s.orders.insert (showOrderId B s.market.nextOrderId)
          (replacementInfo B x.now expStr a side price q s.market.nextOrderId) := by
  have hnew : s.market.newOrderId = (s.market.nextOrderId, s.market.newOrderId.2) := rfl
  unfold placeReplacement addLimitOrder addLimitOrderFull at h ⊢
  rw [hnew] at h ⊢
  dsimp only at h ⊢
  rcases addLimit_cases hf a side price q .gtc with ⟨e, x, he, -⟩ | ⟨r, x, he, hsub, -⟩
  · rw [he] at h
    cases h
  · rw [he]
    exact ⟨x, r, hsub, rfl, rfl, rfl⟩

/-- A PATCH that reports `Modified` cancelled the order and placed a GTC one. -/
theorem replaceOrder_modified (hf : s.market.Fresh) {expStr : String}
    {resp : ModifyOrderResponse}
    (h : (s.replaceOrder expStr key a id o price q).1 = .ok resp)
    (hstatus : resp.status = .modified) :
    ∃ x x' r, Cancelled s.market x a id ∧
      Submitted x x' a o.side (some price) q r (rested x.nextOrderId o.side price .gtc r) ∧
      resp.orderId = showOrderId B x.nextOrderId ∧
      (s.replaceOrder expStr key a id o price q).2.market = x' ∧
      (s.replaceOrder expStr key a id o price q).2.orders =
        (s.orders.erase key).insert (showOrderId B x.nextOrderId)
          (replacementInfo B x'.now expStr a o.side price q x.nextOrderId) := by
  unfold replaceOrder at h ⊢
  cases hcancel : s.market.cancelOrder a id with
  | mk res x =>
    rw [hcancel] at h
    match res with
    | .error e => cases h
    | .ok false =>
      obtain rfl := Except.ok.inj h
      cases hstatus
    | .ok true =>
      have hcancelled := cancel_cancelled hcancel
      have hfresh : x.Fresh := (hcancelled.toRemoved.shrunk.wanes hf).fresh
      dsimp only at h ⊢
      obtain rfl := Except.ok.inj h
      obtain ⟨x', r, hsub, hid, hmarket, horders⟩ := placeReplacement_modified
        (s := ((s.withMarket x).untrack key).publishLevelDelta a o.side o.price) hfresh hstatus
      exact ⟨x, x', r, hcancelled, hsub, hid, hmarket, horders⟩

/-- The replacement rests whole when nothing is within reach. -/
theorem submitted_uncrossed {x x' : Exchange B} {side : Side} {r : MatchResult} (hq : 0 < q)
    (huncrossed : Uncrossed x a side price)
    (hsub : Submitted x x' a side (some price) q r (rested x.nextOrderId side price .gtc r)) :
    ∀ c j, x'.getOrder c j =
      if c = a ∧ j = x.nextOrderId then some ⟨x.nextOrderId, side, price, q, .gtc⟩
      else x.getOrder c j := by
  have hnil : r.trades = [] := hsub.filled.matched.trades_eq_nil huncrossed
  have hremaining : r.remainingQuantity = q := by
    have hsum := hsub.filled.matched.conserves
    simpa [MatchResult.executedQuantity, hnil] using hsum
  intro c j
  rw [hsub.filled.getOrder c j]
  by_cases hc : c = a
  · subst hc
    by_cases hj : j = x.nextOrderId
    · simp [hj, rested, TimeInForce.rests, hremaining, hq]
    · have hkeep : x.newOrderId.2.getOrder c j = x.getOrder c j := rfl
      simp only [hj, and_false, if_false, if_true, hkeep]
      cases ho : x.getOrder c j with
      | none => rfl
      | some o =>
        have hpos : 0 < o.visibleQuantity := LawfulUpstream.getOrder_pos _ _ _ ho
        simp [hnil, makerFilled, hpos]
  · simp only [hc, if_false, false_and]
    rfl

/-- What `modify_order` does to an order whose replacement meets nobody, with the id it was asked
for under `key`. -/
theorem modifyOrder_effect (hg : s.Grounded)
    (hcheck : s.checkModifyOrder p key body = .ok (a, id, o, price, q))
    (huncrossed : Uncrossed s.market a o.side price) {resp : ModifyOrderResponse}
    (h : (s.modifyOrder p key body).1 = .ok resp) (hstatus : resp.status = .modified) :
    resp.orderId = showOrderId B s.market.nextOrderId ∧
    (∀ c j, (s.modifyOrder p key body).2.market.getOrder c j =
      if c = a ∧ j = id then none
      else if c = a ∧ j = s.market.nextOrderId then
        some ⟨s.market.nextOrderId, o.side, price, q, .gtc⟩
      else s.market.getOrder c j) ∧
    ∃ now, (s.modifyOrder p key body).2.orders =
      (s.orders.erase key).insert (showOrderId B s.market.nextOrderId)
        (replacementInfo B now p.expStr a o.side price q s.market.nextOrderId) := by
  obtain ⟨-, -, -, -, hq⟩ := checkModifyOrder_ok hcheck
  unfold modifyOrder at h ⊢
  rw [hcheck] at h ⊢
  dsimp only at h ⊢
  obtain ⟨x, x', r, hcancelled, hsub, hid, hmarket, horders⟩ :=
    replaceOrder_modified hg.fresh h hstatus
  have hnext : x.nextOrderId = s.market.nextOrderId := hcancelled.nextOrderId
  have hfree : Uncrossed x a o.side price := by
    intro j o' ho'
    rw [hcancelled.getOrder] at ho'
    split_ifs at ho'
    exact huncrossed j o' ho'
  have hrests := submitted_uncrossed hq hfree hsub
  rw [hnext] at hid hrests horders
  refine ⟨hid, ?_, x'.now, horders⟩
  intro c j
  rw [hmarket, hrests, hcancelled.getOrder]
  have hnew : id ≠ s.market.nextOrderId := by
    obtain ⟨o', ho'⟩ := Option.isSome_iff_exists.mp hcancelled.present
    exact (hg.fresh.resting ho').ne
  by_cases hold : c = a ∧ j = id
  · obtain ⟨rfl, rfl⟩ := hold
    simp [hnew]
  · simp [hold]

/-- A PATCH whose replacement does not cross changes what was asked for and nothing else exactly
when the order was good till cancelled and the request spells its id as it is tracked, if it is. -/
theorem modify_faithful_iff [F64 F] {ok : AppState B F → Request F → Prop}
    (h : Reaches Start step ok s)
    (hcheck : s.checkModifyOrder p key body = .ok (a, id, o, price, q))
    (huncrossed : Uncrossed s.market a o.side price) {resp : ModifyOrderResponse}
    (hmodified : (s.modifyOrder p key body).1 = .ok resp) (hstatus : resp.status = .modified) :
    Replaced s (s.modifyOrder p key body).2 body a id o ↔
      o.timeInForce = .gtc ∧ s.SameKey id key := by
  have hg := reaches_grounded h
  obtain ⟨htarget, hrests, rfl, rfl, -⟩ := checkModifyOrder_ok hcheck
  obtain ⟨-, hbooks, now, horders⟩ := modifyOrder_effect hg hcheck huncrossed hmodified hstatus
  have hparse := (target_locate htarget).2
  have hlt : id < s.market.nextOrderId := hg.fresh.resting hrests
  have hkeys : showOrderId B id ≠ showOrderId B s.market.nextOrderId :=
    fun he => hlt.ne (showOrderId_injective he)
  -- the key that goes is the order's own, or nobody's
  have hspelled : ∀ other, other ≠ showOrderId B id →
      AList.lookup other (s.orders.erase key) = s.orders.lookup other := by
    intro other hother
    rw [Table.lookup_erase_eq]
    split_ifs with he
    · subst he
      cases hinfo : s.orders.lookup other with
      | none => rfl
      | some info =>
        obtain ⟨i, -, rfl, -⟩ := hg.tracked other info hinfo
        rw [LawfulUpstream.parse_show] at hparse
        exact absurd (congrArg (showOrderId B) (Option.some.inj hparse)) hother
    · rfl
  constructor
  · intro hreplaced
    constructor
    · have hbook := hreplaced.books a s.market.nextOrderId
      rw [hbooks a s.market.nextOrderId] at hbook
      simpa [hlt.ne', eq_comm] using hbook
    · have hgone := hreplaced.untracked
      rw [horders, Table.lookup_insert_eq, if_neg hkeys, Table.lookup_erase_eq] at hgone
      split_ifs at hgone with he
      · exact .inr he.symm
      · exact .inl hgone
  · rintro ⟨htif, hsame⟩
    refine ⟨?_, ?_, ?_, ?_⟩
    · intro c j
      rw [hbooks, htif]
    · refine ⟨_, by rw [horders, Table.lookup_insert_eq, if_pos rfl], rfl, ?_⟩
      rw [htif]
      exact ⟨OrderInfo.ofMatch_names _ _ _ _ _ _ _ _ _, rfl, rfl, rfl, rfl, rfl, rfl, rfl⟩
    · rw [horders, Table.lookup_insert_eq, if_neg hkeys, Table.lookup_erase_eq]
      rcases hsame with hnone | rfl
      · split_ifs
        · rfl
        · exact hnone
      · exact if_pos rfl
    · intro other hother hnew
      rw [horders, Table.lookup_insert_eq, if_neg hnew, hspelled other hother]

theorem uncrossed_of_orders {x : Exchange B} {side : Side}
    (h : ∀ o ∈ Upstream.orders (x.books a), o.side = side.opposite →
      ¬ Crosses side (some price) o.price) : Uncrossed x a side price := by
  intro j o ho
  have hid := LawfulUpstream.getOrder_id _ _ _ ho
  exact h o ((LawfulUpstream.mem_orders _ o).mpr (hid ▸ ho))

section Reference

/-- An order rests on the one book there is. -/
def restingSell (tif : OrderTimeInForce) (expireAt : Option String) : AppState ReferenceBook ℚ :=
  reference.step (.addOrder ⟨"BTC", "30", 10000, "call"⟩ ⟨.sell, 100, 5, some tif, expireAt⟩)

theorem restingSell_reached (tif : OrderTimeInForce) (expireAt : Option String) :
    Reaches Start step (fun _ _ => True) (restingSell tif expireAt) :=
  (Reaches.start reference_start).next trivial

/-- It is asked for at another price. -/
def repriced (s : AppState ReferenceBook ℚ) :
    Except ApiError ModifyOrderResponse × AppState ReferenceBook ℚ :=
  s.modifyOrder ⟨"BTC", "30", 10000, "call"⟩ "0" ⟨some 120, none⟩

/-- An order good until February rests without an end afterwards. -/
theorem modify_drops_expiry :
    let s := restingSell .gtd (some "1970-02-01T00:00:00Z")
    Reaches Start step (fun _ _ => True) s ∧
    s.market.getOrder btcCall 0 = some ⟨0, .sell, 100, 5, .gtd 2678400000⟩ ∧
    (repriced s).1.toOption.map ModifyOrderResponse.status = some .modified ∧
    (repriced s).2.market.getOrder btcCall 1 = some ⟨1, .sell, 120, 5, .gtc⟩ ∧
    ¬ Replaced s (repriced s).2 ⟨some 120, none⟩ btcCall 0 ⟨0, .sell, 100, 5, .gtd 2678400000⟩ := by
  intro s
  have hafter : (repriced s).2.market.getOrder btcCall 1 = some ⟨1, .sell, 120, 5, .gtc⟩ := by
    decide +kernel
  refine ⟨restingSell_reached _ _, by decide +kernel, by decide +kernel, hafter, ?_⟩
  intro hreplaced
  have hbook := hreplaced.books btcCall 1
  rw [hafter] at hbook
  revert hbook
  decide +kernel

theorem modify_faithful_iff_gtc :
    Replaced (restingSell .gtc none) (repriced (restingSell .gtc none)).2 ⟨some 120, none⟩ btcCall 0
      ⟨0, .sell, 100, 5, .gtc⟩ := by
  have hcheck : (restingSell .gtc none).checkModifyOrder ⟨"BTC", "30", 10000, "call"⟩ "0"
      ⟨some 120, none⟩ = .ok (btcCall, 0, ⟨0, .sell, 100, 5, .gtc⟩, 120, 5) := by
    rfl
  have hresp : (repriced (restingSell .gtc none)).1 = .ok ⟨"1", .modified, some 120, some 5, true,
      "Order modified successfully (cancel-and-replace)"⟩ := by
    rfl
  apply (modify_faithful_iff (restingSell_reached .gtc none) hcheck _ hresp rfl).mpr
  · exact ⟨rfl, .inr (by decide +kernel)⟩
  · exact uncrossed_of_orders (by decide +kernel)

end Reference
end AppState
end OptionChainBackend
