import OptionChainBackend.Api.Truthful
import OptionChainBackend.Api.Parts

/-!
DELETE of an order. `cancel_order` takes an order its book does not have for a filled one; what it
writes is true exactly when the order was filled, and the book addressed is the order's own.
-/
namespace OptionChainBackend
open Foundation Upstream MarketMaker Exchange

namespace AppState
variable {B F : Type} [Upstream B] {s s' : AppState B F} {p : OptionPath} {key : String}

/-- After the DELETE of `key` led from `s` to `s'`, what is tracked under `key` is truthful, and an
order that was tracked and still rests on its own book is still tracked. -/
structure CancelHonest (s s' : AppState B F) (key : String) : Prop where
  told : ∀ i o, key = showOrderId B i → s'.orders.lookup key = some o → o.Truthful s'.market i
  kept : ∀ i, key = showOrderId B i → (s.orders.lookup key).isSome = true →
    0 < s'.market.remaining i → (s'.orders.lookup key).isSome = true

/-- The book a DELETE addresses does not mistake the tracked order: what it cancels rests on its
own book, and what it does not have was filled whole. -/
def CancelFits (s : AppState B F) (p : OptionPath) (key : String) : Prop :=
  ∀ a i o, target s.market p key = .ok (a, i) → s.orders.lookup key = some o →
    match (s.market.cancelOrder a i).1 with
    | .ok true => s.market.home i = some a ∨ s.market.remaining i = 0
    | .ok false => o.originalQuantity ≤ s.market.executed i ∧ s.market.remaining i = 0
    | .error _ => True

/-- No order a snapshot brings back is tracked as filled or cancelled. -/
def RestoreFits (s : AppState B F) (snapshotId : String) : Prop :=
  ∀ stored, s.snapshots.lookup snapshotId = some stored → ∀ info ∈ stored.infos, ∀ snapshot,
    parseSnapshot B info.data = .ok snapshot → ∀ r ∈ snapshot.orders, ∀ o,
      s.orders.lookup (showOrderId B r.id) = some o → o.status.working = true

def CancelSafe (s : AppState B F) : Request F → Prop
  | .cancelOrder p key => s.CancelFits p key
  | .restoreSnapshot id => s.RestoreFits id
  | _ => True

variable [LawfulUpstream B]

theorem cancelAt_orders_ne {a : OptionAddr} {i : OrderId} {key' : String} (hk : key' ≠ key) :
    (s.cancelAt a i key).2.orders.lookup key' = s.orders.lookup key' := by
  rcases cancelAt_cases (s := s) a i key with ⟨e, x, he, -⟩ | ⟨x, he, -⟩ | ⟨x, he, -⟩
  · rw [he]
    rfl
  · rw [he, (publishCancelled_reported a _).orders]
    exact AList.lookup_erase_ne hk
  · rw [he]
    change (s.orders.modify key _).lookup key' = _
    rw [Table.lookup_modify, if_neg hk]

omit [LawfulUpstream B] in
/-- What a cancelled order has left on the book it was placed on. -/
theorem cancelled_remaining_eq_zero {x x' : Exchange B} {a : OptionAddr} {i : OrderId}
    (h : Cancelled x x' a i) :
    x'.remaining i = 0 ↔ x.home i = some a ∨ x.remaining i = 0 := by
  unfold Exchange.remaining
  rw [h.home]
  cases hh : x.home i with
  | none => simp
  | some c =>
    simp only [h.getOrder, Option.some.injEq]
    by_cases hc : c = a
    · simp [hc]
    · simp [hc]

/-- The tracked record of the order a DELETE addresses, through each answer of the book. -/
theorem cancelAt_honest_iff (hg : s.Grounded) (h : s.Truthful) (a : OptionAddr) {i : OrderId}
    {o : OrderInfo} (ho : s.orders.lookup (showOrderId B i) = some o) :
    CancelHonest s (s.cancelAt a i (showOrderId B i)).2 (showOrderId B i) ↔
      match (s.market.cancelOrder a i).1 with
      | .ok true => s.market.home i = some a ∨ s.market.remaining i = 0
      | .ok false => o.originalQuantity ≤ s.market.executed i ∧ s.market.remaining i = 0
      | .error _ => True := by
  have hw := (cancelAt_advances hg a i (showOrderId B i)).wanes
  rcases cancelAt_cases (s := s) a i (showOrderId B i) with
    ⟨e, x, he, hres, -⟩ | ⟨x, he, hres, hc⟩ | ⟨x, he, hres, hi, -⟩
  · rw [hres]
    refine iff_of_true ?_ trivial
    rw [he] at hw ⊢
    have ht : (s.withMarket x).Truthful := h.orders_eq hg hw rfl
    constructor
    · intro j o' hj ho'
      rw [hj] at ho'
      exact ht j o' ho'
    · exact fun _ _ hsome _ => hsome
  · rw [hres, he]
    have hr := publishCancelled_reported (s := (s.withMarket x).untrack (showOrderId B i)) a
      (s.market.getOrder a i)
    have hm : (((s.withMarket x).untrack (showOrderId B i)).publishCancelled a
        (s.market.getOrder a i)).market = x := hr.market
    have hnone : (((s.withMarket x).untrack (showOrderId B i)).publishCancelled a
        (s.market.getOrder a i)).orders.lookup (showOrderId B i) = none := by
      rw [hr.orders]
      exact AList.lookup_erase _ _
    rw [← cancelled_remaining_eq_zero hc]
    constructor
    · intro hh
      by_contra hpos
      have hkept := hh.kept i rfl (by rw [ho]; rfl) (by rw [hm]; exact Nat.pos_of_ne_zero hpos)
      rw [hnone] at hkept
      cases hkept
    · intro hzero
      constructor
      · intro j o' _ ho'
        rw [hnone] at ho'
        cases ho'
      · intro j hj _ hpos
        rw [hm, ← showOrderId_injective hj, hzero] at hpos
        exact absurd hpos (lt_irrefl 0)
  · rw [hres, he]
    have hnew : (s.orders.modify (showOrderId B i) (.markFilled s.market.now)).lookup
        (showOrderId B i) = some (o.markFilled s.market.now) := by
      simp [ho]
    have hexec : x.executed i = s.market.executed i := hi.toQuiet.executed i
    have hrem : x.remaining i = s.market.remaining i := hi.toQuiet.remaining i
    constructor
    · intro hh
      have ht := hh.told i _ rfl hnew
      refine ⟨?_, ?_⟩
      · rw [← hexec]
        exact ht.filled rfl
      · by_contra hpos
        have hworking := ht.working (by
          change 0 < x.remaining i
          rw [hrem]
          exact Nat.pos_of_ne_zero hpos)
        cases hworking
    · rintro ⟨hle, hzero⟩
      constructor
      · intro j o' hj ho'
        obtain rfl := showOrderId_injective hj
        obtain rfl := Option.some.inj (hnew.symm.trans ho')
        refine ⟨fun _ => ?_, ?_, fun hpos => ?_⟩
        · exact hle.trans hexec.ge
        · exact hle.trans hexec.ge
        · change 0 < x.remaining i at hpos
          rw [hrem, hzero] at hpos
          exact absurd hpos (lt_irrefl 0)
      · intro j _ _ _
        rw [hnew]
        rfl

/-- A DELETE leaves the truth about its order exactly when it fits. -/
theorem cancelOrder_honest_iff (hg : s.Grounded) (h : s.Truthful) (p : OptionPath)
    (key : String) : CancelHonest s (s.cancelOrder p key).2 key ↔ s.CancelFits p key := by
  unfold cancelOrder CancelFits
  cases ht : target s.market p key with
  | error e =>
    refine iff_of_true ⟨fun i o hi ho => ?_, fun _ _ hsome _ => hsome⟩ ?_
    · subst hi
      exact h i o ho
    · intro a i o hai
      cases hai
  | ok ai =>
    obtain ⟨a, i⟩ := ai
    dsimp only
    cases ho : s.orders.lookup key with
    | none =>
      have hnone : (s.cancelAt a i key).2.orders.lookup key = none := by
        rcases cancelAt_cases (s := s) a i key with ⟨e, x, he, -⟩ | ⟨x, he, -⟩ | ⟨x, he, -⟩
        · rw [he]
          exact ho
        · rw [he, (publishCancelled_reported a _).orders]
          exact AList.lookup_erase _ _
        · rw [he]
          change (s.orders.modify key _).lookup key = _
          rw [Table.lookup_modify, if_pos rfl, ho]
          rfl
      refine iff_of_true ⟨fun j o _ hj => ?_, fun j _ hsome _ => ?_⟩ ?_
      · rw [hnone] at hj
        cases hj
      · rw [ho] at hsome
        cases hsome
      · intro a' i' o _ ho'
        cases ho'
    | some o =>
      obtain ⟨j, c, hk, -⟩ := hg.tracked key o ho
      have hij : i = j := by
        have hp := (target_locate ht).2
        rw [hk, LawfulUpstream.parse_show] at hp
        exact (Option.some.inj hp).symm
      subst hij
      subst hk
      rw [cancelAt_honest_iff hg h a ho]
      constructor
      · intro hfit a' i' o' hai ho'
        obtain ⟨rfl, rfl⟩ := Prod.mk.inj (Except.ok.inj hai)
        obtain rfl := Option.some.inj ho'
        exact hfit
      · intro hfit
        exact hfit a i o rfl rfl

theorem cancelOrder_truthful (hg : s.Grounded) (h : s.Truthful) (hfit : s.CancelFits p key) :
    (s.cancelOrder p key).2.Truthful := by
  have hhonest := (cancelOrder_honest_iff hg h p key).mpr hfit
  apply h.change hg (cancelOrder_advances hg p key).wanes
  intro i o ho
  by_cases hk : showOrderId B i = key
  · subst hk
    exact .inr (hhonest.told i o rfl ho)
  · left
    unfold cancelOrder at ho
    split at ho
    · exact ho
    · rwa [cancelAt_orders_ne hk] at ho

theorem restoreSnapshot_truthful (hg : s.Grounded) (h : s.Truthful) {snapshotId : String}
    (hfit : s.RestoreFits snapshotId) : (s.restoreSnapshot snapshotId).2.Truthful := by
  rcases restoreSnapshot_cases (s := s) snapshotId with he | ⟨stored, hst, he⟩
  · rw [he]
    exact h
  · rw [he]
    obtain ⟨-, htape, hhome, -⟩ := restoreInfos_ages hg.fresh (hg.saved snapshotId stored hst)
    intro i o ho
    have ht := h i o ho
    have hexec : (restoreInfos s.market stored.infos).2.executed i = s.market.executed i := by
      simp only [executed, htape]
    refine ⟨fun hst => (ht.filled hst).trans hexec.ge, ht.executed.trans hexec.ge, fun hpos => ?_⟩
    obtain ⟨a, ha⟩ := hg.home ho
    change 0 < (restoreInfos s.market stored.infos).2.remaining i at hpos
    have ha' : (restoreInfos s.market stored.infos).2.home i = some a := by rw [hhome, ha]
    rw [remaining_of_home ha'] at hpos
    cases hr : (restoreInfos s.market stored.infos).2.getOrder a i with
    | none =>
      rw [hr] at hpos
      exact absurd hpos (lt_irrefl 0)
    | some r =>
      rcases restoreInfos_getOrder s.market stored.infos hr with
        hold | ⟨info, hmem, snapshot, hp, hsaved, rfl⟩
      · apply ht.working
        rw [remaining_of_home ha, hold]
        exact LawfulUpstream.getOrder_pos _ _ _ hold
      · exact hfit stored hst info hmem snapshot hp r hsaved o ho

theorem modifyOrder_truthful (hg : s.Grounded) (h : s.Truthful) (p : OptionPath) (key : String)
    (body : ModifyOrderRequest) : (s.modifyOrder p key body).2.Truthful := by
  unfold modifyOrder
  split
  · exact h
  · exact replaceOrder_truthful hg h _ _ _ _ _ _ _

theorem bulkCancelOrders_truthful (hg : s.Grounded) (h : s.Truthful) (keys : List String) :
    (s.bulkCancelOrders keys).2.Truthful :=
  bulkCancelOrders_keeps hg h fun key _ _ hg' h' => cancelTracked_truthful hg' h' key _

theorem cancelAllOrders_truthful (hg : s.Grounded) (h : s.Truthful) (q : CancelAllQuery) :
    (s.cancelAllOrders q).2.Truthful :=
  cancelAllOrders_keeps hg h fun _ _ _ hg' h' => cancelTracked_truthful hg' h' _ _

theorem Truthful.step [F64 F] (hg : s.Grounded) (h : s.Truthful) (i : Request F)
    (hok : s.CancelSafe i) : (s.step i).Truthful := by
  have hwanes : ∀ {i : Request F}, Ordinary i = true → Wanes s.market (s.step i).market :=
    fun hi => (step_advances hg hi).wanes
  cases i with
  | addOrder p body =>
    change (s.addOrder p body).2.Truthful
    unfold addOrder
    split
    · exact h
    · exact submitLimit_truthful hg h _ _ _ _
  | submitMarketOrder p body =>
    change (s.submitMarketOrder p body).2.Truthful
    unfold submitMarketOrder
    split
    · exact h
    · exact submitMarket_truthful hg h _ _ _
  | cancelOrder p key => exact cancelOrder_truthful hg h hok
  | modifyOrder p key body => exact modifyOrder_truthful hg h p key body
  | bulkSubmitOrders body => exact bulkSubmitOrders_truthful hg h body
  | bulkCancelOrders keys => exact bulkCancelOrders_truthful hg h keys
  | cancelAllOrders q => exact cancelAllOrders_truthful hg h q
  | createSnapshot id => exact fun i o ho => h i o ho
  | restoreSnapshot id => exact restoreSnapshot_truthful hg h hok
  | createUnderlying u => exact h.orders_eq hg (hwanes (i := .createUnderlying u) rfl) rfl
  | createExpiration u expStr =>
    apply h.orders_eq hg (hwanes (i := .createExpiration u expStr) rfl)
    change (s.createExpiration u expStr).2.orders = s.orders
    unfold createExpiration
    split <;> rfl
  | createStrike u expStr strike =>
    apply h.orders_eq hg (hwanes (i := .createStrike u expStr strike) rfl)
    change (s.createStrike u expStr strike).2.orders = s.orders
    unfold createStrike
    split <;> rfl
  | deleteUnderlying u =>
    apply h.orders_eq hg (hwanes (i := .deleteUnderlying u) rfl)
    change (s.deleteUnderlying u).2.orders = s.orders
    unfold deleteUnderlying
    split_ifs <;> rfl
  | cleanupOldOrders age =>
    refine foldl_keeps (fun s : AppState B F => s) AppState.untrack
      (fun _ key hacc => (Advances.refl hacc.fresh).untrack key) (fun t key _ hg' h' => ?_) s hg h
    exact h'.untrack hg' (.refl hg'.fresh) rfl
  | engine op => exact h.orders_eq hg (hwanes (i := .engine op) rfl) rfl
  | tick ms => exact h.orders_eq hg (hwanes (i := .tick ms) rfl) rfl

section Runs
variable [F64 F]

omit [LawfulUpstream B] in
theorem Start.truthful (h : s.Start) : s.Truthful := by
  obtain ⟨quoter, rfl⟩ := h
  intro i o ho
  have hnone : (∅ : Table String OrderInfo).lookup (showOrderId B i) = some o := ho
  simp at hnone

/-- In a run whose steps are all `CancelSafe`, no record invents a fill, and a further DELETE keeps
it so exactly when it is `CancelSafe` too. -/
theorem cancel_never_invents_iff (h : Reaches Start step CancelSafe s) :
    s.Truthful ∧ ∀ p key,
      CancelHonest s (s.cancelOrder p key).2 key ↔ s.CancelSafe (.cancelOrder p key) := by
  have hinv : s.Grounded ∧ s.Truthful := by
    apply Reaches.invariant (P := fun s => s.Grounded ∧ s.Truthful) _ _ h
    · exact fun s hs => ⟨hs.grounded, hs.truthful⟩
    · exact fun s i hs hok => ⟨hs.1.step i, hs.2.step hs.1 i hok⟩
  exact ⟨hinv.2, fun p key => cancelOrder_honest_iff hinv.1 hinv.2 p key⟩

end Runs

section Reference

/-- An order rests on one of two books, and the DELETE names the other. -/
def strayCancel : List (Request ℚ) :=
  [.createStrike "BTC" "30" 10000, .createStrike "BTC" "30" 20000,
    .addOrder ⟨"BTC", "30", 10000, "call"⟩ ⟨.sell, 100, 5, none, none⟩]

theorem cancel_invents_fill : ¬ ∀ s : AppState ReferenceBook ℚ,
    Reaches Start step (fun _ _ => True) s →
    ∀ p key, CancelHonest s (s.cancelOrder p key).2 key := by
  intro h
  have hrun : Reaches Start step (fun _ _ => True) (strayCancel.foldl step reference) :=
    (Reaches.start reference_start).run ⟨trivial, trivial, trivial, trivial⟩
  have hhonest := h _ hrun ⟨"BTC", "30", 20000, "call"⟩ "0"
  have htracked : (((strayCancel.foldl step reference).cancelOrder ⟨"BTC", "30", 20000, "call"⟩
      "0").2.orders.lookup "0").map OrderInfo.filledQuantity = some 5 := by decide +kernel
  obtain ⟨o, ho, hfilled⟩ := Option.map_eq_some_iff.mp htracked
  have hle := (hhonest.told 0 o (by decide +kernel) ho).executed
  rw [hfilled] at hle
  exact absurd hle (by decide +kernel)

/-- The same DELETE on the order's own book. -/
theorem cancel_honest_own_book :
    CancelHonest (strayCancel.foldl step reference)
      ((strayCancel.foldl step reference).cancelOrder ⟨"BTC", "30", 10000, "call"⟩ "0").2 "0" := by
  have hrun : Reaches Start step CancelSafe (strayCancel.foldl step reference) :=
    (Reaches.start reference_start).run ⟨trivial, trivial, trivial, trivial⟩
  apply ((cancel_never_invents_iff hrun).2 _ _).mpr
  intro a i o hai _
  have htarget : (target (strayCancel.foldl step reference).market
      ⟨"BTC", "30", 10000, "call"⟩ "0").toOption = some (btcCall, 0) := by decide +kernel
  rw [hai] at htarget
  obtain ⟨rfl, rfl⟩ := Prod.mk.inj (Option.some.inj htarget)
  have hres : ((strayCancel.foldl step reference).market.cancelOrder btcCall 0).1 = .ok true := by
    decide +kernel
  rw [hres]
  exact .inl (by decide +kernel)

end Reference
end AppState
end OptionChainBackend
