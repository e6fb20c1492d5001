import OptionChainBackend.Api.Honesty
import OptionChainBackend.Api.Parts

/-!
What tracked orders say about executions: no more than happened. One DELETE can break it, when the
book it addresses does not have the order.
-/
namespace OptionChainBackend
open Foundation Upstream MarketMaker Exchange

def OrderStatus.working : OrderStatus → Bool
  | .active | .partialFill => true
  | .pending | .filled | .canceled => false

/-- The record `o` of order `i` claims no execution that did not happen. -/
structure OrderInfo.Truthful {B : Type} [Upstream B] (x : Exchange B) (i : OrderId)
    (o : OrderInfo) : Prop where
  filled : o.status = .filled → o.originalQuantity ≤ x.executed i
  executed : o.filledQuantity ≤ x.executed i
  working : 0 < x.remaining i → o.status.working = true

namespace OrderInfo.Truthful
variable {B : Type} [Upstream B] {x x' : Exchange B} {i : OrderId} {o : OrderInfo}
  {a : OptionAddr}

theorem wane (h : o.Truthful x i) (hw : Wanes x x') (ha : x.home i = some a) :
    o.Truthful x' i where
  filled hs := (h.filled hs).trans (hw.executed i)
  executed := h.executed.trans (hw.executed i)
  working hr := h.working (hr.trans_le (hw.remaining ha))

/-- A record made from the match of a submission. -/
theorem ofMatch {side : Side} {limit : Option ℕ} {q : ℕ} {r : MatchResult}
    {left : Option RestingOrder} (hs : Submitted x x' a side limit q r left)
    (underlying expiration : String) (strike : ℕ) (style : OptionStyle) (price : ℕ)
    (tif : OrderTimeInForce) (now : ℕ) :
    (OrderInfo.ofMatch B x.nextOrderId underlying expiration strike style side price q tif now
      r).Truthful x' x.nextOrderId := by
  have hexec : r.executedQuantity ≤ x'.executed x.nextOrderId := by
    have hself := hs.filled.executed_self
    change x'.executed x.nextOrderId = _ at hself
    omega
  have hcons := hs.filled.matched.conserves
  refine ⟨fun hst => ?_, hexec, fun hr => ?_⟩
  · change q ≤ x'.executed x.nextOrderId
    have hdone : r.isComplete = true := by
      change r.orderStatus = .filled at hst
      unfold MatchResult.orderStatus at hst
      split_ifs at hst with hc
      exact hc
    rw [hs.filled.matched.complete, decide_eq_true_eq] at hdone
    omega
  · have hself := hs.filled.remaining_self
    change x'.remaining x.nextOrderId = _ at hself
    have hle := hs.filled.left_le
    have hopen : r.isComplete = false := by
      rw [hs.filled.matched.complete, decide_eq_false_iff_not]
      omega
    change r.orderStatus.working = true
    unfold MatchResult.orderStatus
    rw [hopen]
    simp only [Bool.false_eq_true, if_false]
    split_ifs <;> rfl

/-- The record of a replacement claims nothing at all. -/
theorem untouched (id : OrderId) (underlying expiration : String) (strike : ℕ)
    (style : OptionStyle) (side : Side) (price q : ℕ) (now : ℕ) :
    (OrderInfo.ofMatch B id underlying expiration strike style side price q .gtc now
      (.untouched q)).Truthful x i := by
  have hactive : (MatchResult.untouched q).orderStatus = .active := rfl
  refine ⟨fun hst => ?_, Nat.zero_le _, fun _ => ?_⟩
  · change (MatchResult.untouched q).orderStatus = .filled at hst
    rw [hactive] at hst
    cases hst
  · change (MatchResult.untouched q).orderStatus.working = true
    rw [hactive]
    rfl

/-- What the rollback writes is true when a cleared order no longer rests. -/
theorem rolledBack {q : ℕ} {cleared : Bool} (hq : q ≤ x.executed i)
    (hc : cleared = true → x.remaining i = 0) (now : ℕ) :
    (o.rolledBack q cleared now).Truthful x i := by
  unfold OrderInfo.rolledBack
  have hgone : cleared = true → ¬ 0 < x.remaining i := fun hcl => by
    rw [hc hcl]
    exact lt_irrefl 0
  split_ifs with hcl hle
  · exact ⟨fun _ => hle.trans hq, hq, fun hr => absurd hr (hgone hcl)⟩
  · exact ⟨nofun, hq, fun hr => absurd hr (hgone hcl)⟩
  · exact ⟨nofun, hq, fun _ => rfl⟩

end OrderInfo.Truthful

namespace AppState
variable {B F : Type} [Upstream B] {s s' : AppState B F}

/-- Every tracked record meets `P`. -/
def Tracks (P : Exchange B → OrderId → OrderInfo → Prop) (s : AppState B F) : Prop :=
  ∀ i o, s.orders.lookup (showOrderId B i) = some o → P s.market i o

theorem Tracks.change {P : Exchange B → OrderId → OrderInfo → Prop} (h : s.Tracks P)
    (hmove : ∀ i o, s.orders.lookup (showOrderId B i) = some o → P s.market i o →
      P s'.market i o)
    (ho : ∀ i o, s'.orders.lookup (showOrderId B i) = some o →
      s.orders.lookup (showOrderId B i) = some o ∨ P s'.market i o) : s'.Tracks P := by
  intro i o hi
  rcases ho i o hi with hold | hnew
  · exact hmove i o hold (h i o hold)
  · exact hnew

def Truthful (s : AppState B F) : Prop := s.Tracks fun x i o => o.Truthful x i

variable [LawfulUpstream B]

/-- Where a tracked order was placed. -/
theorem Grounded.home (h : s.Grounded) {i : OrderId} {o : OrderInfo}
    (ho : s.orders.lookup (showOrderId B i) = some o) : ∃ a, s.market.home i = some a := by
  obtain ⟨j, a, hk, -, hh, -⟩ := h.tracked _ o ho
  obtain rfl := showOrderId_injective hk
  exact ⟨a, hh⟩

theorem Truthful.change (h : s.Truthful) (hg : s.Grounded) (hw : Wanes s.market s'.market)
    (ho : ∀ i o, s'.orders.lookup (showOrderId B i) = some o →
      s.orders.lookup (showOrderId B i) = some o ∨ o.Truthful s'.market i) : s'.Truthful := by
  apply Tracks.change h _ ho
  intro i o hi ht
  obtain ⟨a, ha⟩ := hg.home hi
  exact ht.wane hw ha

theorem Truthful.orders_eq (h : s.Truthful) (hg : s.Grounded) (hw : Wanes s.market s'.market)
    (ho : s'.orders = s.orders) : s'.Truthful :=
  h.change hg hw fun _ _ hi => .inl (ho ▸ hi)

theorem Truthful.untrack (h : s.Truthful) (hg : s.Grounded) (hw : Wanes s.market s'.market)
    {key : String} (ho : s'.orders = s.orders.erase key) : s'.Truthful := by
  apply h.change hg hw
  intro i o hi
  rw [ho, Table.lookup_erase_eq] at hi
  split_ifs at hi
  exact .inl hi

theorem Truthful.insert (h : s.Truthful) (hg : s.Grounded) (hw : Wanes s.market s'.market)
    {j : OrderId} {info : OrderInfo} (hi : info.Truthful s'.market j)
    (ho : s'.orders = s.orders.insert (showOrderId B j) info) : s'.Truthful := by
  apply h.change hg hw
  intro i o hl
  rw [ho, Table.lookup_insert_eq] at hl
  split_ifs at hl with he
  · obtain rfl := showOrderId_injective he
    obtain rfl := Option.some.inj hl
    exact .inr hi
  · exact .inl hl

section Parts

theorem submitLimit_truthful (hg : s.Grounded) (h : s.Truthful) (expStr : String)
    (a : OptionAddr) (tif : TimeInForce) (body : AddOrderRequest) :
    (s.submitLimit expStr a tif body).2.Truthful := by
  have hw := (submitLimit_advances hg expStr a tif body).wanes
  rcases submitLimit_cases hg.fresh expStr a tif body with ⟨x, he, -⟩ | ⟨r, x, he, -, hs⟩
  · rw [he] at hw ⊢
    exact h.orders_eq hg hw rfl
  · obtain ⟨hr, ho⟩ := acceptLimit_recorded (s := s) (x := x) (a := a) expStr body
      s.market.nextOrderId hs.filled.matched.positive
    rw [he] at hw ⊢
    refine h.insert hg hw ?_ ho
    rw [hr.market]
    exact .ofMatch hs _ _ _ _ _ _ _

theorem submitMarket_truthful (hg : s.Grounded) (h : s.Truthful) (expStr : String)
    (a : OptionAddr) (body : MarketOrderRequest) : (s.submitMarket expStr a body).2.Truthful := by
  have hw := (submitMarket_advances hg expStr a body).wanes
  rcases submitMarket_cases hg.fresh expStr a body with ⟨x, he, -⟩ | ⟨r, x, he, -, hs⟩
  · rw [he] at hw ⊢
    exact h.orders_eq hg hw rfl
  · obtain ⟨hr, ho⟩ := acceptMarket_recorded (s := s) (x := x) (a := a) expStr body.side
      hs.filled.matched.positive
    rw [he] at hw ⊢
    exact h.orders_eq hg hw ho

theorem submitSingleOrder_truthful (hg : s.Grounded) (h : s.Truthful) (item : BulkOrderItem) :
    (s.submitSingleOrder item).2.Truthful := by
  have hw := (submitSingleOrder_advances hg item).wanes
  rcases submitSingleOrder_cases s item with ⟨e, -, he⟩ | ⟨a, r, hsome, he⟩
  · rw [he] at hw ⊢
    exact h.orders_eq hg hw rfl
  · obtain ⟨-, hs⟩ := placeItem_accepted hg.fresh hsome
    rw [he] at hw ⊢
    refine h.insert hg hw ?_ (acceptItem_orders _ _)
    rw [acceptItem_market]
    exact .ofMatch hs _ _ _ _ _ _ _

theorem cancelTracked_truthful (hg : s.Grounded) (h : s.Truthful) (key : String) (o : OrderInfo) :
    (s.cancelTracked key o).2.Truthful := by
  have hw := (cancelTracked_advances hg key o).wanes
  rcases cancelTracked_cases (s := s) key o with ⟨e, x, he, -⟩ | ⟨a, id, x, he, -⟩
  · rw [he] at hw ⊢
    exact h.orders_eq hg hw rfl
  · rw [he] at hw ⊢
    exact h.untrack hg hw rfl

theorem placeReplacement_truthful (hg : s.Grounded) (h : s.Truthful) (expStr key : String)
    (a : OptionAddr) (side : Side) (price q : ℕ) :
    (s.placeReplacement expStr key a side price q).2.Truthful := by
  rcases placeReplacement_cases hg.fresh expStr key a side price q with
    ⟨x, he, hi⟩ | ⟨r, x, he, -, hs⟩
  · rw [he]
    exact h.orders_eq hg (hi.toQuiet.wanes hg.fresh) rfl
  · rw [he]
    exact h.insert hg (hs.wanes hg.fresh) (.untouched _ _ _ _ _ _ _ _ _) rfl

theorem replaceOrder_truthful (hg : s.Grounded) (h : s.Truthful) (expStr key : String)
    (a : OptionAddr) (id : OrderId) (o : RestingOrder) (price q : ℕ) :
    (s.replaceOrder expStr key a id o price q).2.Truthful := by
  rcases replaceOrder_cases (s := s) expStr key a id o price q with ⟨x, he, hi⟩ | ⟨x, he, -, hc⟩
  · rw [he]
    exact h.orders_eq hg (hi.toQuiet.wanes hg.fresh) rfl
  · rw [he]
    have hw : Advances s (((s.withMarket x).untrack key).publishLevelDelta a o.side o.price) :=
      ((Advances.withMarket (hc.toRemoved.shrunk.wanes hg.fresh)).untrack key).reported
        (publishLevelDelta_reported a o.side o.price)
    have ht : (((s.withMarket x).untrack key).publishLevelDelta a o.side o.price).Truthful :=
      h.untrack hg hw.wanes rfl
    exact placeReplacement_truthful (hg.advance hw) ht _ _ _ _ _ _

theorem submitAll_truthful (hg : s.Grounded) (h : s.Truthful) (atomic : Bool)
    (items : List BulkOrderItem) : (s.submitAll atomic items).state.Truthful :=
  submitAll_keeps hg h atomic fun item _ hg' h' => submitSingleOrder_truthful hg' h' item

/-- The rollback writes the fill captured on submit, and clears only what no longer rests. -/
theorem RolledBack.truthful {x : Exchange B} {b : Batch B F} {items : List BulkOrderItem}
    {answer : ℕ → Except String Bool} {out : Outcomes × AppState B F} (hg : b.state.Grounded)
    (h : b.state.Truthful) (hplaced : b.Placed x items) (hcount : b.Counted x)
    (hback : RolledBack b.state items b.accepted answer out)
    (hw : Wanes b.state.market out.2.market) : out.2.Truthful := by
  apply h.change hg hw
  intro i info hl
  by_cases hmem : ∃ o ∈ b.accepted, o.orderId = i
  · obtain ⟨o, ho, rfl⟩ := hmem
    obtain ⟨info', hinfo', -⟩ := hcount.tracked o ho
    rw [hback.tracked o ho, hinfo', AcceptedBulkOrder.reconciled] at hl
    split_ifs at hl with hfill hok
    · obtain rfl := Option.some.inj hl
      refine .inr (.rolledBack ?_ (fun hok => ?_) _)
      · have htaken := hcount.taken o ho
        have hle := hw.executed o.orderId
        omega
      · obtain ⟨item, a, hitem, hloc, -, hhome, -⟩ := hplaced.places o ho
        rw [remaining_of_home (hw.home hhome), hback.gone o ho hok item a hitem hloc]
        rfl
    · exact .inl (hinfo'.trans hl)
  · rw [hback.others] at hl
    · exact .inl hl
    · exact fun o ho he => hmem ⟨o, ho, (showOrderId_injective he).symm⟩

theorem bulkSubmitOrders_truthful (hg : s.Grounded) (h : s.Truthful) (body : BulkOrderRequest) :
    (s.bulkSubmitOrders body).2.Truthful := by
  obtain ⟨items, atomic⟩ := body
  by_cases hne : items = []
  · unfold bulkSubmitOrders
    rw [if_pos hne]
    exact h
  by_cases hall : (s.submitAll atomic items).failed = none
  · rw [bulkSubmitOrders_completes hne hall]
    exact submitAll_truthful hg h atomic items
  · obtain rfl := atomic_of_failed hall
    obtain ⟨⟨k, e⟩, hke⟩ := Option.ne_none_iff_exists'.mp hall
    have hadv := submitAll_advances hg true items
    rw [bulkSubmitOrders_rollback hke]
    obtain ⟨answer, hback⟩ := rollbackOrders_spec (s.submitAll true items).state
      (submitAll_indexed hg.fresh hke)
    exact hback.truthful (hg.advance hadv) (submitAll_truthful hg h true items)
      (submitAll_placed hg.fresh true items) (submitAll_counted hg.fresh true items)
      (rollbackOrders_advances (hg.advance hadv) items _).wanes

end Parts
end AppState
end OptionChainBackend
