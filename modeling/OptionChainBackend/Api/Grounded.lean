import OptionChainBackend.Api.Effects
import OptionChainBackend.MarketMaker.Calls

/-!
The ground every claim about the REST surface stands on: ids in use are issued, every tracked
order was placed on a book its stored strings name, and none of them is the engine's. It holds
after every row of requests of any kind.
-/
namespace OptionChainBackend
open Foundation Upstream MarketMaker Exchange

/-- The stored strings lead to `a`, up to the spelling of the expiration. -/
structure OrderInfo.Names (o : OrderInfo) (a : OptionAddr) : Prop where
  underlying : o.underlying = a.underlying
  strike : o.strike = a.strike
  style : o.style = Desk.styleName a.style

theorem OrderInfo.ofMatch_names {B : Type} [Upstream B] (id : OrderId) (expiration : String)
    (a : OptionAddr) (side : Side) (price q : ℕ) (tif : OrderTimeInForce) (now : ℕ)
    (r : MatchResult) :
    (OrderInfo.ofMatch B id a.underlying expiration a.strike a.style side price q tif now
      r).Names a := ⟨rfl, rfl, rfl⟩

theorem OrderInfo.Names.markFilled {o : OrderInfo} {a : OptionAddr} (h : o.Names a) (now : ℕ) :
    (o.markFilled now).Names a := ⟨h.underlying, h.strike, h.style⟩

theorem OrderInfo.Names.rolledBack {o : OrderInfo} {a : OptionAddr} (h : o.Names a) (q : ℕ)
    (cleared : Bool) (now : ℕ) : (o.rolledBack q cleared now).Names a := by
  unfold OrderInfo.rolledBack
  split_ifs <;> exact ⟨h.underlying, h.strike, h.style⟩

namespace AppState
variable {B F : Type} [Upstream B] {s s' s'' : AppState B F}

structure Grounded (s : AppState B F) : Prop where
  fresh : s.market.Fresh
  quoted : ∀ i ∈ s.quoted, i < s.market.nextOrderId
  tracked : ∀ key o, s.orders.lookup key = some o → ∃ i a, key = showOrderId B i ∧
    i ∉ s.quoted ∧ s.market.home i = some a ∧ o.Names a
  saved : ∀ id stored, s.snapshots.lookup id = some stored → ∀ info ∈ stored.infos,
    ∀ snapshot, parseSnapshot B info.data = .ok snapshot → ∀ o ∈ snapshot.orders,
      o.id < s.market.nextOrderId

/-- What a part of a request that restores nothing does to the books and the tracking. -/
structure Advances (s s' : AppState B F) : Prop where
  wanes : Wanes s.market s'.market
  quoted : ∀ i ∈ s'.quoted, i ∈ s.quoted ∨
    s.market.nextOrderId ≤ i ∧ i < s'.market.nextOrderId
  orders : ∀ key o', s'.orders.lookup key = some o' →
    (∃ o, s.orders.lookup key = some o ∧ ∀ a, o.Names a → o'.Names a) ∨
    ∃ i a, key = showOrderId B i ∧ s.market.nextOrderId ≤ i ∧ i ∉ s'.quoted ∧
      s'.market.home i = some a ∧ o'.Names a
  snapshots : s'.snapshots = s.snapshots

theorem Advances.refl (hf : s.market.Fresh) : Advances s s :=
  ⟨.refl hf, fun _ hi => .inl hi, fun _ o ho => .inl ⟨o, ho, fun _ h => h⟩, rfl⟩

theorem Advances.trans (h : Advances s s') (h' : Advances s' s'') : Advances s s'' where
  wanes := h.wanes.trans h'.wanes
  quoted i hi := by
    rcases h'.quoted i hi with hi | hi
    · exact (h.quoted i hi).imp_right fun hn => ⟨hn.1, hn.2.trans_le h'.wanes.next⟩
    · exact .inr ⟨h.wanes.next.trans hi.1, hi.2⟩
  orders key o'' ho'' := by
    rcases h'.orders key o'' ho'' with ⟨o', ho', hn'⟩ | ⟨i, a, hk, hi, hq, ha, hn⟩
    · rcases h.orders key o' ho' with ⟨o, ho, hn⟩ | ⟨i, a, hk, hi, hq, ha, hn⟩
      · exact .inl ⟨o, ho, fun a ha => hn' a (hn a ha)⟩
      · refine .inr ⟨i, a, hk, hi, fun hq' => ?_, h'.wanes.home ha, hn' a hn⟩
        rcases h'.quoted i hq' with hq' | hq'
        · exact hq hq'
        · exact absurd (h.wanes.fresh.home ha) (Nat.not_lt.mpr hq'.1)
    · exact .inr ⟨i, a, hk, h.wanes.next.trans hi, hq, ha, hn⟩
  snapshots := h'.snapshots.trans h.snapshots

theorem Grounded.advance (h : s.Grounded) (ha : Advances s s') : s'.Grounded where
  fresh := ha.wanes.fresh
  quoted i hi := by
    rcases ha.quoted i hi with hi | hi
    · exact (h.quoted i hi).trans_le ha.wanes.next
    · exact hi.2
  tracked key o' ho' := by
    rcases ha.orders key o' ho' with ⟨o, ho, hn⟩ | ⟨i, a, hk, -, hq, hh, hn⟩
    · obtain ⟨i, a, hk, hq, hh, hname⟩ := h.tracked key o ho
      refine ⟨i, a, hk, fun hq' => ?_, ha.wanes.home hh, hn a hname⟩
      rcases ha.quoted i hq' with hq' | hq'
      · exact hq hq'
      · exact absurd (h.fresh.home hh) (Nat.not_lt.mpr hq'.1)
    · exact ⟨i, a, hk, hq, hh, hn⟩
  saved id stored hs := by
    rw [ha.snapshots] at hs
    exact fun info hi snapshot hp o ho =>
      (h.saved id stored hs info hi snapshot hp o ho).trans_le ha.wanes.next

/-- The next id is nobody's key yet. -/
theorem Grounded.unissued [LawfulUpstream B] (h : s.Grounded) {i : OrderId}
    (hi : s.market.nextOrderId ≤ i) : s.orders.lookup (showOrderId B i) = none := by
  cases ho : s.orders.lookup (showOrderId B i) with
  | none => rfl
  | some o =>
    obtain ⟨j, a, hk, -, hh, -⟩ := h.tracked _ o ho
    rw [showOrderId_injective hk] at hi
    exact absurd (h.fresh.home hh) (Nat.not_lt.mpr hi)

section Parts
variable {x : Exchange B} {a : OptionAddr} {id : OrderId} {side : Side} {limit : Option ℕ} {q : ℕ}
  {r : MatchResult} {left : Option RestingOrder} {symbol : String} {info : OrderInfo}

/-- Only the books change, and no record of tracking is new. -/
theorem Advances.of_orders (hw : Wanes s.market s'.market) (hq : s'.quoted = s.quoted)
    (ho : ∀ key o', s'.orders.lookup key = some o' →
      ∃ o, s.orders.lookup key = some o ∧ ∀ a, o.Names a → o'.Names a)
    (hs : s'.snapshots = s.snapshots) : Advances s s' :=
  ⟨hw, fun _ hi => .inl (hq ▸ hi), fun key o' h => .inl (ho key o' h), hs⟩

theorem Advances.withMarket (hw : Wanes s.market x) : Advances s (s.withMarket x) :=
  .of_orders hw rfl (fun _ o ho => ⟨o, ho, fun _ h => h⟩) rfl

theorem Advances.untrack (h : Advances s s') (key : String) : Advances s (s'.untrack key) where
  wanes := h.wanes
  quoted := h.quoted
  orders k o ho := by
    simp only [AppState.untrack, Table.lookup_erase_eq] at ho
    split_ifs at ho
    exact h.orders k o ho
  snapshots := h.snapshots

theorem Advances.reported (h : Advances s s') (hr : Reported s' s'') : Advances s s'' where
  wanes := by
    rw [hr.market]
    exact h.wanes
  quoted := by
    rw [hr.quoted, hr.market]
    exact h.quoted
  orders := by
    rw [hr.quoted, hr.market, hr.orders]
    exact h.orders
  snapshots := hr.snapshots.trans h.snapshots

/-- Rewriting the record under one key. -/
theorem Advances.modify (h : Advances s s') (key : String) (f : OrderInfo → OrderInfo)
    (hf : ∀ o a, o.Names a → (f o).Names a) :
    Advances s { s' with orders := s'.orders.modify key f } where
  wanes := h.wanes
  quoted := h.quoted
  orders k o' ho' := by
    simp only [Table.lookup_modify] at ho'
    split_ifs at ho' with hk
    · obtain ⟨o, ho, rfl⟩ := Option.map_eq_some_iff.mp ho'
      rcases h.orders key o ho with ⟨o0, ho0, hn⟩ | ⟨i, a, hkey, hi, hq, hh, hn⟩
      · exact .inl ⟨o0, hk ▸ ho0, fun a ha => hf o a (hn a ha)⟩
      · exact .inr ⟨i, a, hk ▸ hkey, hi, hq, hh, hf o a hn⟩
    · exact h.orders k o' ho'
  snapshots := h.snapshots

theorem Advances.submitted (hg : s.Grounded) (hs : Submitted s.market x a side limit q r left)
    (hm : s'.market = x) (hq : s'.quoted = s.quoted) (hsn : s'.snapshots = s.snapshots)
    (ho : s'.orders = s.orders ∨ ∃ info, info.Names a ∧
      s'.orders = s.orders.insert (showOrderId B s.market.nextOrderId) info) :
    Advances s s' where
  wanes := by
    rw [hm]
    exact hs.wanes hg.fresh
  quoted i hi := .inl (hq ▸ hi)
  orders key o' ho' := by
    rcases ho with ho | ⟨info, hn, ho⟩
    · exact .inl ⟨o', ho ▸ ho', fun _ h => h⟩
    · rw [ho, Table.lookup_insert_eq] at ho'
      split_ifs at ho' with hk
      · obtain rfl := Option.some.inj ho'
        refine .inr ⟨s.market.nextOrderId, a, hk, le_rfl, ?_, ?_, hn⟩
        · rw [hq]
          exact fun hi => lt_irrefl _ (hg.quoted _ hi)
        · rw [hm]
          exact hs.home_self
      · exact .inl ⟨o', ho', fun _ h => h⟩
  snapshots := hsn

variable [LawfulUpstream B]

theorem submitLimit_advances (hg : s.Grounded) (expStr : String) (a : OptionAddr)
    (tif : TimeInForce) (body : AddOrderRequest) :
    Advances s (s.submitLimit expStr a tif body).2 := by
  rcases submitLimit_cases hg.fresh expStr a tif body with ⟨x, he, hi⟩ | ⟨r, x, he, -, hs⟩
  · rw [he]
    exact .withMarket (hi.toQuiet.wanes hg.fresh)
  · obtain ⟨hr, ho⟩ := acceptLimit_recorded (s := s) (x := x) (a := a) expStr body
      s.market.nextOrderId hs.filled.matched.positive
    rw [he]
    exact .submitted hg hs hr.market hr.quoted hr.snapshots
      (.inr ⟨_, OrderInfo.ofMatch_names _ _ _ _ _ _ _ _ _, ho⟩)

theorem submitMarket_advances (hg : s.Grounded) (expStr : String) (a : OptionAddr)
    (body : MarketOrderRequest) : Advances s (s.submitMarket expStr a body).2 := by
  rcases submitMarket_cases hg.fresh expStr a body with ⟨x, he, hi⟩ | ⟨r, x, he, -, hs⟩
  · rw [he]
    exact .withMarket (hi.toQuiet.wanes hg.fresh)
  · obtain ⟨hr, ho⟩ := acceptMarket_recorded (s := s) (x := x) (a := a) expStr body.side
      hs.filled.matched.positive
    rw [he]
    exact .submitted hg hs hr.market hr.quoted hr.snapshots (.inl ho)

theorem submitSingleOrder_advances (hg : s.Grounded) (item : BulkOrderItem) :
    Advances s (s.submitSingleOrder item).2 := by
  rcases submitSingleOrder_cases s item with ⟨e, hnone, he⟩ | ⟨a, r, hsome, he⟩
  · rw [he]
    exact .withMarket ((placeItem_refused hg.fresh hnone).toQuiet.wanes hg.fresh)
  · obtain ⟨hl, hs⟩ := placeItem_accepted hg.fresh hsome
    obtain ⟨-, hu, hk, hst, -⟩ := locate_ok hl
    have hr := acceptItem_recorded (s := s) (x := (s.market.placeItem item).2) item
      s.market.nextOrderId hu hs.filled.matched.positive
    rw [he]
    refine .submitted hg hs hr.market hr.quoted hr.snapshots (.inr ⟨_, ?_, acceptItem_orders _ _⟩)
    exact ⟨hu.symm, hk.symm, congrArg Desk.styleName hst.symm⟩

theorem cancelAt_advances (hg : s.Grounded) (a : OptionAddr) (id : OrderId) (key : String) :
    Advances s (s.cancelAt a id key).2 := by
  rcases cancelAt_cases (s := s) a id key with ⟨e, x, he, -, hi⟩ | ⟨x, he, -, hc⟩ | ⟨x, he, -, hi, -⟩
  · rw [he]
    exact .withMarket (hi.toQuiet.wanes hg.fresh)
  · rw [he]
    have hw : Advances s (s.withMarket x) := .withMarket (hc.toRemoved.shrunk.wanes hg.fresh)
    exact (hw.untrack key).reported (publishCancelled_reported a _)
  · rw [he]
    have hw : Advances s (s.withMarket x) := .withMarket (hi.toQuiet.wanes hg.fresh)
    exact hw.modify key _ fun o a ho => ho.markFilled _

theorem replaceOrder_advances (hg : s.Grounded) (expStr key : String) (a : OptionAddr)
    (id : OrderId) (o : RestingOrder) (price q : ℕ) :
    Advances s (s.replaceOrder expStr key a id o price q).2 := by
  rcases replaceOrder_cases (s := s) expStr key a id o price q with ⟨x, he, hi⟩ | ⟨x, he, -, hc⟩
  · rw [he]
    exact .withMarket (hi.toQuiet.wanes hg.fresh)
  · rw [he]
    have hw : Advances s (s.withMarket x) := .withMarket (hc.toRemoved.shrunk.wanes hg.fresh)
    have h1 := (hw.untrack key).reported (publishLevelDelta_reported a o.side o.price)
    have hg1 := hg.advance h1
    refine h1.trans ?_
    rcases placeReplacement_cases hg1.fresh expStr key a o.side price q with
      ⟨x', he', hi'⟩ | ⟨r, x', he', -, hs'⟩
    · rw [he']
      exact .withMarket (hi'.toQuiet.wanes hg1.fresh)
    · rw [he']
      exact .submitted hg1 hs' rfl rfl rfl
        (.inr ⟨_, OrderInfo.ofMatch_names _ _ _ _ _ _ _ _ _, rfl⟩)

theorem cancelTracked_advances (hg : s.Grounded) (key : String) (o : OrderInfo) :
    Advances s (s.cancelTracked key o).2 := by
  rcases cancelTracked_cases (s := s) key o with ⟨e, x, he, hi, -⟩ | ⟨a, id, x, he, -, hc⟩
  · rw [he]
    exact .withMarket (hi.toQuiet.wanes hg.fresh)
  · rw [he]
    have hw : Advances s (s.withMarket x) := .withMarket (hc.toRemoved.shrunk.wanes hg.fresh)
    exact (hw.untrack key).reported (publishLevelDelta_reported a o.side o.price)

theorem rollbackOrder_advances (hg : s.Grounded) (item : BulkOrderItem)
    (o : AcceptedBulkOrder) : Advances s (s.rollbackOrder item o).2 := by
  have hcancel : Advances s (s.cancelBulkItemOrder item o.orderId).2 := by
    rcases cancelBulkItemOrder_cases (s := s) item o.orderId with ⟨res, x, he, hi, -⟩ | ⟨a, x, he, -, hc⟩
    · rw [he]
      exact .withMarket (hi.toQuiet.wanes hg.fresh)
    · rw [he]
      have hw : Advances s (s.withMarket x) := .withMarket (hc.toRemoved.shrunk.wanes hg.fresh)
      exact hw.reported (publishLevelDelta_reported a item.side item.price)
  unfold rollbackOrder
  dsimp only
  unfold reconcile
  dsimp only
  split_ifs
  · exact hcancel.modify _ _ fun o a ho => ho.rolledBack _ _ _
  · split
    · exact hcancel.untrack _
    · exact hcancel

end Parts

section Requests
variable [LawfulUpstream B]

omit [LawfulUpstream B] in
/-- A row of parts, each of which advances any grounded state. -/
theorem advances_foldl {ι σ : Type} (state : σ → AppState B F) (f : σ → ι → σ)
    (hf : ∀ acc i, (state acc).Grounded → Advances (state acc) (state (f acc i)))
    (is : List ι) (acc : σ) (hg : (state acc).Grounded) :
    Advances (state acc) (state (is.foldl f acc)) := by
  induction is generalizing acc with
  | nil => exact .refl hg.fresh
  | cons i is ih =>
    have h := hf acc i hg
    exact h.trans (ih (f acc i) (hg.advance h))

theorem addOrder_advances (hg : s.Grounded) (p : OptionPath) (body : AddOrderRequest) :
    Advances s (s.addOrder p body).2 := by
  unfold addOrder
  split
  · exact .refl hg.fresh
  · exact submitLimit_advances hg _ _ _ _

theorem submitMarketOrder_advances (hg : s.Grounded) (p : OptionPath)
    (body : MarketOrderRequest) : Advances s (s.submitMarketOrder p body).2 := by
  unfold submitMarketOrder
  split
  · exact .refl hg.fresh
  · exact submitMarket_advances hg _ _ _

theorem cancelOrder_advances (hg : s.Grounded) (p : OptionPath) (key : String) :
    Advances s (s.cancelOrder p key).2 := by
  unfold cancelOrder
  split
  · exact .refl hg.fresh
  · exact cancelAt_advances hg _ _ _

theorem modifyOrder_advances (hg : s.Grounded) (p : OptionPath) (key : String)
    (body : ModifyOrderRequest) : Advances s (s.modifyOrder p key body).2 := by
  unfold modifyOrder
  split
  · exact .refl hg.fresh
  · exact replaceOrder_advances hg _ _ _ _ _ _ _

theorem batchNext_advances (atomic : Bool) (b : Batch B F) (e : BulkOrderItem × ℕ)
    (hg : b.state.Grounded) : Advances b.state (b.next atomic e).state := by
  rcases b.next_state_cases atomic e with heq | heq
  · rw [heq]
    exact .refl hg.fresh
  · rw [heq]
    exact submitSingleOrder_advances hg e.1

theorem submitAll_advances (hg : s.Grounded) (atomic : Bool) (items : List BulkOrderItem) :
    Advances s (s.submitAll atomic items).state :=
  advances_foldl Batch.state (Batch.next atomic) (fun b e => batchNext_advances atomic b e)
    items.zipIdx (.start s) hg

theorem rollbackOrders_advances (hg : s.Grounded) (items : List BulkOrderItem)
    (accepted : List AcceptedBulkOrder) : Advances s (s.rollbackOrders items accepted).2 := by
  apply advances_foldl (fun acc : Outcomes × AppState B F => acc.2) (rollbackNext items) _
    accepted (∅, s) hg
  intro acc o hacc
  unfold rollbackNext
  split
  · exact .refl hacc.fresh
  · exact rollbackOrder_advances hacc _ o

theorem bulkSubmitOrders_advances (hg : s.Grounded) (body : BulkOrderRequest) :
    Advances s (s.bulkSubmitOrders body).2 := by
  unfold bulkSubmitOrders
  split_ifs
  · exact .refl hg.fresh
  · have hb := submitAll_advances hg body.atomic body.orders
    dsimp only
    unfold Batch.finish
    split
    · exact hb.trans (rollbackOrders_advances (hg.advance hb) _ _)
    · exact hb

theorem bulkCancelNext_advances (acc : BulkCancelResponse × AppState B F) (key : String)
    (hg : acc.2.Grounded) : Advances acc.2 (bulkCancelNext acc key).2 := by
  rw [bulkCancelNext_snd]
  unfold bulkCancelOne
  split
  · exact .refl hg.fresh
  · exact cancelTracked_advances hg key _

theorem bulkCancelOrders_advances (hg : s.Grounded) (keys : List String) :
    Advances s (s.bulkCancelOrders keys).2 := by
  unfold bulkCancelOrders
  split_ifs
  · exact .refl hg.fresh
  · exact advances_foldl (fun acc : BulkCancelResponse × AppState B F => acc.2) bulkCancelNext
      bulkCancelNext_advances keys (⟨0, 0, []⟩, s) hg

theorem cancelNext_advances (acc : CancelAllResponse × AppState B F) (e : String × OrderInfo)
    (hg : acc.2.Grounded) : Advances acc.2 (cancelNext acc e).2 := by
  rw [cancelNext_snd]
  exact cancelTracked_advances hg e.1 e.2

theorem cancelSelected_advances (hg : s.Grounded) (f : CancelFilter) :
    Advances s (s.cancelSelected f).2 :=
  advances_foldl (fun acc : CancelAllResponse × AppState B F => acc.2) cancelNext
    cancelNext_advances _ (⟨0, 0⟩, s) hg

theorem cancelAllOrders_advances (hg : s.Grounded) (q : CancelAllQuery) :
    Advances s (s.cancelAllOrders q).2 := by
  unfold cancelAllOrders
  split
  · exact .refl hg.fresh
  · exact cancelSelected_advances hg _

omit [LawfulUpstream B] in
theorem cleanupOldOrders_advances (hg : s.Grounded) (maxAgeSecs : ℕ) :
    Advances s (s.cleanupOldOrders maxAgeSecs).2 :=
  advances_foldl (fun s : AppState B F => s) AppState.untrack
    (fun _ key hacc => (Advances.refl hacc.fresh).untrack key) _ s hg

theorem engine_advances [F64 F] (hg : s.Grounded) (op : Operation F) :
    Advances s { s with toDesk := op.apply s.toDesk } := by
  have hp := Desk.operation_passed hg.fresh op
  exact ⟨hp.wanes, hp.quoted, fun _ o ho => .inl ⟨o, ho, fun _ h => h⟩, rfl⟩

omit [LawfulUpstream B] in
theorem create_advances (hg : s.Grounded) (x : Exchange B) (hi : Idle s.market x) :
    Advances s (s.withMarket x) := .withMarket (hi.toQuiet.wanes hg.fresh)

/-- The requests that neither take nor restore a snapshot. -/
def Ordinary : Request F → Bool
  | .createSnapshot _ => false
  | .restoreSnapshot _ => false
  | _ => true

theorem step_advances [F64 F] (hg : s.Grounded) {i : Request F} (hi : Ordinary i = true) :
    Advances s (s.step i) := by
  cases i with
  | addOrder p body => exact addOrder_advances hg p body
  | submitMarketOrder p body => exact submitMarketOrder_advances hg p body
  | cancelOrder p key => exact cancelOrder_advances hg p key
  | modifyOrder p key body => exact modifyOrder_advances hg p key body
  | bulkSubmitOrders body => exact bulkSubmitOrders_advances hg body
  | bulkCancelOrders keys => exact bulkCancelOrders_advances hg keys
  | cancelAllOrders q => exact cancelAllOrders_advances hg q
  | createSnapshot id => cases hi
  | restoreSnapshot id => cases hi
  | createUnderlying u => exact create_advances hg _ (getOrCreate_idle _ u)
  | createExpiration u expStr =>
    change Advances s (s.createExpiration u expStr).2
    unfold createExpiration
    split
    · exact .refl hg.fresh
    · exact create_advances hg _ ((getOrCreate_idle _ u).trans (getOrCreateExpiration_idle _ u _))
  | createStrike u expStr strike =>
    change Advances s (s.createStrike u expStr strike).2
    unfold createStrike
    split
    · exact .refl hg.fresh
    · exact create_advances hg _ (((getOrCreate_idle _ u).trans
        (getOrCreateExpiration_idle _ u _)).trans (getOrCreateStrike_idle _ u _ strike))
  | deleteUnderlying u =>
    change Advances s (s.deleteUnderlying u).2
    unfold deleteUnderlying
    split_ifs
    · exact .withMarket ((remove_shrunk _ u).wanes hg.fresh)
    · exact .refl hg.fresh
  | cleanupOldOrders age => exact cleanupOldOrders_advances hg age
  | engine op => exact engine_advances hg op
  | tick ms => exact .withMarket ((tick_shrunk _ ms).wanes hg.fresh)

end Requests

section Snapshots
variable [LawfulUpstream B]

omit [Upstream B] [LawfulUpstream B] in
theorem evictOldest_lookup {snapshots : Table String StoredSnapshot} {id : String}
    {stored : StoredSnapshot} (h : (evictOldest snapshots).lookup id = some stored) :
    snapshots.lookup id = some stored := by
  unfold evictOldest at h
  split at h
  · rw [Table.lookup_erase_eq] at h
    split_ifs at h
    exact h
  · exact h

omit [Upstream B] [LawfulUpstream B] in
theorem evictOldest_iterate_lookup {snapshots : Table String StoredSnapshot} {id : String}
    {stored : StoredSnapshot} (n : ℕ) (h : (evictOldest^[n] snapshots).lookup id = some stored) :
    snapshots.lookup id = some stored := by
  induction n generalizing snapshots with
  | zero => exact h
  | succ n ih => exact evictOldest_lookup (ih h)

/-- Every saved book can be read back as it was. -/
theorem saveBooks_mem {x : Exchange B} {snapshotId : String} {info : OrderbookSnapshotInfo}
    (h : info ∈ (saveBooks x snapshotId).infos) : ∃ a,
      info.underlying = a.underlying ∧ info.expiration = formatExpiration B x.now a.expiration ∧
      info.strike = a.strike ∧ info.style = Desk.styleName a.style ∧
      parseSnapshot B info.data = .ok (Upstream.createSnapshot (x.books a)) := by
  revert h
  unfold saveBooks
  apply List.foldlRecOn (motive := fun t : SaveTally => info ∈ t.infos → ∃ a,
      info.underlying = a.underlying ∧ info.expiration = formatExpiration B x.now a.expiration ∧
      info.strike = a.strike ∧ info.style = Desk.styleName a.style ∧
      parseSnapshot B info.data = .ok (Upstream.createSnapshot (x.books a)))
  · intro h
    cases h
  · intro t ih a _ h
    unfold saveBook at h
    dsimp only at h
    split_ifs at h
    · split at h
      · rename_i data hd
        rcases List.mem_append.mp h with h | h
        · exact ih h
        · obtain rfl := List.mem_singleton.mp h
          exact ⟨a, rfl, rfl, rfl, rfl, LawfulUpstream.parse_serialize _ _ hd⟩
      · exact ih h
    · exact ih h

theorem createSnapshot_grounded (hg : s.Grounded) (snapshotId : String) :
    (s.createSnapshot snapshotId).2.Grounded where
  fresh := hg.fresh
  quoted := hg.quoted
  tracked := hg.tracked
  saved id stored hs info hi snapshot hp o ho := by
    have hs := evictOldest_iterate_lookup _ hs
    rw [Table.lookup_insert_eq] at hs
    split_ifs at hs
    · obtain rfl := Option.some.inj hs
      obtain ⟨a, -, -, -, -, hpa⟩ := saveBooks_mem hi
      rw [hp] at hpa
      rw [Except.ok.inj hpa] at ho
      exact hg.fresh.resting ((LawfulUpstream.mem_snapshot _ o).mp ho)
    · exact hg.saved id stored hs info hi snapshot hp o ho

/-- The book and the orders that a stored record leads back to. -/
def restoreTarget (B : Type) [Upstream B] (info : OrderbookSnapshotInfo) :
    Option (OptionAddr × OrderBookSnapshot) :=
  match parseSnapshot B info.data, parseExpiration info.expiration, storedStyle info.style with
  | .ok snapshot, .ok e, some style => some (⟨info.underlying, e, info.strike, style⟩, snapshot)
  | _, _, _ => none

omit [LawfulUpstream B] in
theorem restoreTarget_parse {info : OrderbookSnapshotInfo} {a : OptionAddr}
    {snapshot : OrderBookSnapshot} (h : restoreTarget B info = some (a, snapshot)) :
    parseSnapshot B info.data = .ok snapshot := by
  unfold restoreTarget at h
  split at h
  · rename_i hp _ _
    rw [hp, (Prod.mk.inj (Option.some.inj h)).2]
  · cases h

/-- One restored book: nothing rests differently, or the orders of the book that the record leads
to are the saved ones. -/
theorem restoreInfo_answer (acc : RestoreTally × Exchange B) (info : OrderbookSnapshotInfo) :
    Idle acc.2 (restoreInfo acc info).2 ∨
    ∃ a snapshot, restoreTarget B info = some (a, snapshot) ∧
      Restored acc.2 (restoreInfo acc info).2 a snapshot := by
  unfold restoreInfo restoreTarget
  cases hp : parseSnapshot B info.data with
  | error e => exact .inl (.refl _)
  | ok snapshot =>
    cases he : parseExpiration info.expiration with
    | error e => exact .inl (getOrCreate_idle _ _)
    | ok e =>
      cases hs : storedStyle info.style with
      | none => exact .inl (openBook_idle _ _)
      | some style =>
        dsimp only
        let a : OptionAddr := ⟨info.underlying, e, info.strike, style⟩
        have hopen := openBook_idle acc.2 a
        obtain ⟨hb, hn⟩ := openBook_books acc.2 a
        rcases restore_cases (acc.2.openBook a) a snapshot with ⟨m, x, he, hi⟩ | ⟨x, he, hr⟩
        · rw [he]
          exact .inl (hopen.trans hi)
        · rw [he]
          right
          refine ⟨a, snapshot, rfl, fun c j => ?_, hr.tape.trans hopen.tape,
            hr.home.trans hopen.home, hr.nextOrderId.trans hn,
            hr.nextTradeId.trans hopen.nextTradeId, hopen.grows.trans hr.grows⟩
          rw [← hopen.getOrder]
          exact hr.getOrder c j

/-- One restored book: nothing rests differently, or its orders are the saved ones. -/
theorem restoreInfo_cases (acc : RestoreTally × Exchange B) (info : OrderbookSnapshotInfo) :
    Idle acc.2 (restoreInfo acc info).2 ∨
    ∃ a snapshot, parseSnapshot B info.data = .ok snapshot ∧
      Restored acc.2 (restoreInfo acc info).2 a snapshot := by
  rcases restoreInfo_answer acc info with hidle | ⟨a, snapshot, ht, hr⟩
  · exact .inl hidle
  · exact .inr ⟨a, snapshot, restoreTarget_parse ht, hr⟩

/-- Restoring changes neither what was executed nor where orders were placed, and brings back
issued ids only. -/
theorem restoreInfos_ages {x : Exchange B} (hx : x.Fresh) {infos : List OrderbookSnapshotInfo}
    (hi : ∀ info ∈ infos, ∀ snapshot, parseSnapshot B info.data = .ok snapshot →
      ∀ o ∈ snapshot.orders, o.id < x.nextOrderId) :
    Ages x (restoreInfos x infos).2 ∧ (restoreInfos x infos).2.tape = x.tape ∧
      (restoreInfos x infos).2.home = x.home ∧
      (restoreInfos x infos).2.nextTradeId = x.nextTradeId ∧ Grows x (restoreInfos x infos).2 := by
  unfold restoreInfos
  apply List.foldlRecOn (motive := fun acc : RestoreTally × Exchange B => Ages x acc.2 ∧
      acc.2.tape = x.tape ∧ acc.2.home = x.home ∧ acc.2.nextTradeId = x.nextTradeId ∧
      Grows x acc.2)
  · exact ⟨.refl hx, rfl, rfl, rfl, .of_eq rfl⟩
  · rintro acc ⟨hages, htape, hhome, htr, hgrows⟩ info hmem
    rcases restoreInfo_cases acc info with hidle | ⟨a, snapshot, hp, hr⟩
    · exact ⟨hages.trans (hidle.toQuiet.wanes hages.fresh).toAges, hidle.tape.trans htape,
        hidle.home.trans hhome, hidle.nextTradeId.trans htr, hgrows.trans hidle.grows⟩
    · have hstep := hr.ages hages.fresh fun o ho =>
        (hi info hmem snapshot hp o ho).trans_le hages.next
      exact ⟨hages.trans hstep, hr.tape.trans htape, hr.home.trans hhome,
        hr.nextTradeId.trans htr, hgrows.trans hr.grows⟩

/-- What rests after a restore rested before or was saved. -/
theorem restoreInfos_getOrder (x : Exchange B) (infos : List OrderbookSnapshotInfo)
    {c : OptionAddr} {j : OrderId} {o : RestingOrder}
    (h : (restoreInfos x infos).2.getOrder c j = some o) : x.getOrder c j = some o ∨
      ∃ info ∈ infos, ∃ snapshot, parseSnapshot B info.data = .ok snapshot ∧
        o ∈ snapshot.orders ∧ o.id = j := by
  revert h
  unfold restoreInfos
  apply List.foldlRecOn (motive := fun acc : RestoreTally × Exchange B =>
      acc.2.getOrder c j = some o → x.getOrder c j = some o ∨
        ∃ info ∈ infos, ∃ snapshot, parseSnapshot B info.data = .ok snapshot ∧
          o ∈ snapshot.orders ∧ o.id = j)
  · exact fun h => .inl h
  · intro acc ih info hmem h
    rcases restoreInfo_cases acc info with hidle | ⟨a, snapshot, hp, hr⟩
    · exact ih ((hidle.getOrder c j).symm.trans h)
    · rw [hr.getOrder] at h
      split_ifs at h
      · have hid : o.id = j := by simpa using List.find?_some h
        exact .inr ⟨info, hmem, snapshot, hp, List.mem_of_find?_eq_some h, hid⟩
      · exact ih h

omit [LawfulUpstream B] in
theorem restoreSnapshot_cases (snapshotId : String) :
    (s.restoreSnapshot snapshotId).2 = s ∨ ∃ stored, s.snapshots.lookup snapshotId = some stored ∧
      (s.restoreSnapshot snapshotId).2 = s.withMarket (restoreInfos s.market stored.infos).2 := by
  unfold restoreSnapshot
  cases s.snapshots.lookup snapshotId with
  | none => exact .inl rfl
  | some stored => exact .inr ⟨stored, rfl, rfl⟩

theorem restoreSnapshot_grounded (hg : s.Grounded) (snapshotId : String) :
    (s.restoreSnapshot snapshotId).2.Grounded := by
  rcases restoreSnapshot_cases (s := s) snapshotId with he | ⟨stored, hst, he⟩
  · rw [he]
    exact hg
  · rw [he]
    obtain ⟨hages, -⟩ := restoreInfos_ages hg.fresh (hg.saved snapshotId stored hst)
    refine ⟨hages.fresh, fun i hi => (hg.quoted i hi).trans_le hages.next, ?_, ?_⟩
    · intro key o ho
      obtain ⟨i, a, hk, hq, hh, hn⟩ := hg.tracked key o ho
      exact ⟨i, a, hk, hq, hages.home hh, hn⟩
    · exact fun id st hs info hi snap hp o ho =>
        (hg.saved id st hs info hi snap hp o ho).trans_le hages.next

theorem Grounded.step [F64 F] (hg : s.Grounded) (i : Request F) : (s.step i).Grounded := by
  by_cases hi : Ordinary i = true
  · exact hg.advance (step_advances hg hi)
  · cases i with
    | createSnapshot id => exact createSnapshot_grounded hg id
    | restoreSnapshot id => exact restoreSnapshot_grounded hg id
    | _ => exact absurd rfl hi

end Snapshots

section Runs
variable [F64 F]

/-- The process has just come up: no books, no orders, an engine that has quoted nothing. -/
def Start (s : AppState B F) : Prop := ∃ quoter, s = .new quoter

variable [LawfulUpstream B]

theorem Start.grounded (h : s.Start) : s.Grounded := by
  obtain ⟨quoter, rfl⟩ := h
  refine ⟨init_fresh, nofun, fun key o ho => ?_, fun id stored hs => ?_⟩
  · have hnone : (∅ : Table String OrderInfo).lookup key = some o := ho
    simp at hnone
  · have hnone : (∅ : Table String StoredSnapshot).lookup id = some stored := hs
    simp at hnone

theorem reaches_grounded {ok : AppState B F → Request F → Prop} (h : Reaches Start step ok s) :
    s.Grounded := by
  apply h.invariant (P := Grounded)
  · exact fun s hs => hs.grounded
  · exact fun s i hg _ => hg.step i

end Runs

section Reference

def reference : AppState ReferenceBook ℚ := .new (flatQuoter 5)

theorem reference_start : reference.Start := ⟨_, rfl⟩

end Reference
end AppState
end OptionChainBackend
