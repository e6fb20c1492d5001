import OptionChainBackend.Api.AtomicBatch

/-!
What a rolled-back batch says about executions. The rollback goes by the fill captured when each
order was submitted, so it is right exactly when no item of the batch trades with an earlier one.
-/
namespace OptionChainBackend
open Foundation Upstream MarketMaker

namespace Exchange
variable {B : Type} [Upstream B] {x : Exchange B} {items : List BulkOrderItem} {i : OrderId}

omit [Upstream B] in
theorem executedAsMaker_le (x : Exchange B) (i : OrderId) :
    x.executedAsMaker i ≤ x.executed i := by
  unfold executedAsMaker executed
  induction x.tape with
  | nil => simp [makerFilled]
  | cons e tape ih =>
    rw [List.map_cons, makerFilled_cons]
    by_cases hm : e.trade.makerOrderId = i
    · simp only [Trade.involves, hm, decide_true, Bool.or_true, if_true, List.filter_cons_of_pos,
        List.map_cons, List.sum_cons]
      exact Nat.add_le_add_left ih _
    · rw [if_neg hm, zero_add]
      refine ih.trans ?_
      rw [List.filter_cons]
      split_ifs
      · rw [List.map_cons, List.sum_cons]
        exact Nat.le_add_left _ _
      · exact le_rfl

/-- At its turn the item trades with no order of the request that began on `x`. -/
def TradesWithOthers (x : Exchange B) (done : List BulkOrderItem) (item : BulkOrderItem) : Prop :=
  ∀ a r, ((x.placeItems done).placeItem item).1 = some (a, r) →
    ∀ t ∈ r.trades, t.makerOrderId < x.nextOrderId

/-- No item trades with an earlier item of the same batch. -/
def SelfCrossFree (x : Exchange B) (items : List BulkOrderItem) : Prop :=
  EachInTurn x.TradesWithOthers items

variable [LawfulUpstream B]

theorem placeItems_wanes (hf : x.Fresh) (items : List BulkOrderItem) :
    Wanes x (x.placeItems items) := by
  induction items using List.reverseRecOn with
  | nil => exact .refl hf
  | append_singleton items item ih =>
    have hstep : x.placeItems (items ++ [item]) = ((x.placeItems items).placeItem item).2 := by
      simp [placeItems]
    rw [hstep]
    apply ih.trans
    obtain ⟨-, ⟨-, hi⟩ | ⟨a, r, -, -, hs⟩⟩ := placeItem_cases ih.fresh item
    · exact hi.toQuiet.wanes ih.fresh
    · exact hs.wanes ih.fresh

/-- A batch trades with none of its own orders exactly when none of them executes as a maker. -/
theorem selfCrossFree_iff (hf : x.Fresh) (items : List BulkOrderItem) :
    x.SelfCrossFree items ↔
      ∀ i, x.nextOrderId ≤ i → (x.placeItems items).executedAsMaker i = 0 := by
  induction items using List.reverseRecOn with
  | nil => exact ⟨fun _ i hi => hf.executedAsMaker_eq_zero hi, fun _ => .nil⟩
  | append_singleton items item ih =>
    have hstep : x.placeItems (items ++ [item]) = ((x.placeItems items).placeItem item).2 := by
      simp [placeItems]
    have hfresh := (placeItems_wanes hf items).fresh
    unfold SelfCrossFree at ih ⊢
    rw [EachInTurn.concat_iff, ih, hstep]
    cases hp : ((x.placeItems items).placeItem item).1 with
    | none =>
      have hi := placeItem_refused hfresh hp
      have hfree : x.TradesWithOthers items item := by
        intro a r h
        rw [hp] at h
        cases h
      constructor
      · intro h i hge
        rw [hi.toQuiet.executedAsMaker]
        exact h.1 i hge
      · intro h
        refine ⟨fun i hge => ?_, hfree⟩
        rw [← hi.toQuiet.executedAsMaker]
        exact h i hge
    | some ar =>
      obtain ⟨a, r⟩ := ar
      obtain ⟨-, hs⟩ := placeItem_accepted hfresh hp
      have hmaker : ∀ i, ((x.placeItems items).placeItem item).2.executedAsMaker i =
          (x.placeItems items).executedAsMaker i + makerFilled r.trades i :=
        fun i => hs.filled.executedAsMaker i
      constructor
      · rintro ⟨hzero, hfree⟩ i hge
        rw [hmaker, hzero i hge, zero_add]
        refine makerFilled_eq_zero fun t ht he => ?_
        have hlt : t.makerOrderId < x.nextOrderId := hfree a r hp t ht
        rw [he] at hlt
        exact Nat.not_lt.mpr hge hlt
      · intro h
        constructor
        · intro i hge
          have hsum := hmaker i
          rw [h i hge] at hsum
          omega
        · intro a' r' hp' t ht
          obtain ⟨rfl, rfl⟩ := Prod.mk.inj (Option.some.inj (hp.symm.trans hp'))
          by_contra hge
          have hsum := hmaker t.makerOrderId
          have hpos := makerFilled_pos ht (hs.filled.matched.positive t ht)
          rw [h _ (Nat.not_lt.mp hge)] at hsum
          omega

end Exchange

@[simp] theorem OrderInfo.rolledBack_filled (o : OrderInfo) (q : ℕ) (cleared : Bool) (now : ℕ) :
    (o.rolledBack q cleared now).filledQuantity = q := by
  unfold OrderInfo.rolledBack
  split_ifs <;> rfl

namespace AppState
open Exchange

variable {B F : Type} [Upstream B] {s : AppState B F} {x : Exchange B} {b : Batch B F}
  {items : List BulkOrderItem} {k : ℕ}

/-- Executions of the orders of a batch: what each took on submit is on record, the rest it
executed as a maker. -/
structure Batch.Counted (x : Exchange B) (b : Batch B F) : Prop where
  taken : ∀ o ∈ b.accepted, b.state.market.executed o.orderId =
    o.filledQuantity + b.state.market.executedAsMaker o.orderId
  only : ∀ i, x.nextOrderId ≤ i → 0 < b.state.market.executed i →
    ∃ o ∈ b.accepted, o.orderId = i
  tracked : ∀ o ∈ b.accepted, ∃ info, b.state.orders.lookup (showOrderId B o.orderId) = some info ∧
    info.filledQuantity = o.filledQuantity

theorem Batch.Counted.fail (h : b.Counted x) {x' : Exchange B} (hi : Idle b.state.market x')
    {b' : Batch B F} (hs : b'.state = b.state.withMarket x') (ha : b'.accepted = b.accepted) :
    b'.Counted x := by
  have hm : b'.state.market = x' := by rw [hs]; rfl
  have ho : b'.state.orders = b.state.orders := by rw [hs]; rfl
  refine ⟨fun o hmem => ?_, fun i hge hpos => ?_, fun o hmem => ?_⟩
  · rw [hm, hi.toQuiet.executed, hi.toQuiet.executedAsMaker]
    exact h.taken o (ha ▸ hmem)
  · rw [hm, hi.toQuiet.executed] at hpos
    rw [ha]
    exact h.only i hge hpos
  · rw [ho]
    exact h.tracked o (ha ▸ hmem)

/-- An accepted order executes for the first time, and perhaps against an earlier one. -/
theorem Batch.Counted.accept [LawfulUpstream B] (h : b.Counted x) (hp : b.Placed x items)
    {a : OptionAddr} {side : Side} {limit : Option ℕ} {q : ℕ} {r : MatchResult}
    {left : Option RestingOrder} {n : ℕ} {info : OrderInfo} {b' : Batch B F} {x' : Exchange B}
    (hm : b'.state.market = x') (hs : Submitted b.state.market x' a side limit q r left)
    (ha : b'.accepted = b.accepted ++ [⟨n, b.state.market.nextOrderId, r.executedQuantity⟩])
    (ho : b'.state.orders =
      b.state.orders.insert (showOrderId B b.state.market.nextOrderId) info)
    (hi : info.filledQuantity = r.executedQuantity) : b'.Counted x := by
  subst hm
  have hne : ∀ {i}, i ≠ b.state.market.nextOrderId → b'.state.market.executed i =
      b.state.market.executed i + makerFilled r.trades i := fun hi => hs.filled.executed_ne hi
  have hmaker : ∀ i, b'.state.market.executedAsMaker i =
      b.state.market.executedAsMaker i + makerFilled r.trades i :=
    fun i => hs.filled.executedAsMaker i
  have hself : b'.state.market.executed b.state.market.nextOrderId =
      b.state.market.executed b.state.market.nextOrderId + r.executedQuantity :=
    hs.filled.executed_self
  have hzero := hp.fresh.executed_eq_zero (i := b.state.market.nextOrderId) le_rfl
  have hzero' := hp.fresh.executedAsMaker_eq_zero (i := b.state.market.nextOrderId) le_rfl
  have hnone : makerFilled r.trades b.state.market.nextOrderId = 0 :=
    makerFilled_eq_zero fun t ht => hs.filled.maker_ne ht
  refine ⟨fun o hmem => ?_, fun i hge hpos => ?_, fun o hmem => ?_⟩
  · rw [ha] at hmem
    rcases List.mem_append.mp hmem with hmem | hmem
    · rw [hne (hp.issued hmem).ne, hmaker, h.taken o hmem, Nat.add_assoc]
    · obtain rfl := List.mem_singleton.mp hmem
      change b'.state.market.executed b.state.market.nextOrderId =
        r.executedQuantity + b'.state.market.executedAsMaker b.state.market.nextOrderId
      rw [hself, hmaker, hzero, hzero', hnone]
      omega
  · rw [ha]
    by_cases hi : i = b.state.market.nextOrderId
    · exact ⟨_, List.mem_append_right _ (List.mem_singleton_self _), hi.symm⟩
    · have hold : ∃ o ∈ b.accepted, o.orderId = i := by
        cases hrest : b.state.market.getOrder a i with
        | some o => exact List.mem_map.mp (hp.only hge hrest)
        | none =>
          have habs := hs.filled.matched.filled_eq_zero_of_absent hrest
          rw [hne hi, habs] at hpos
          exact h.only i hge hpos
      obtain ⟨o, hmem, he⟩ := hold
      exact ⟨o, List.mem_append_left _ hmem, he⟩
  · rw [ha] at hmem
    rw [ho]
    rcases List.mem_append.mp hmem with hmem | hmem
    · have hkey : showOrderId B o.orderId ≠ showOrderId B b.state.market.nextOrderId :=
        fun he => (hp.issued hmem).ne (showOrderId_injective he)
      rw [Table.lookup_insert_eq, if_neg hkey]
      exact h.tracked o hmem
    · obtain rfl := List.mem_singleton.mp hmem
      exact ⟨info, by simp, hi⟩

theorem submitAll_counted [LawfulUpstream B] (hf : s.market.Fresh) (atomic : Bool)
    (items : List BulkOrderItem) : (s.submitAll atomic items).Counted s.market := by
  induction items using List.reverseRecOn with
  | nil =>
    refine ⟨nofun, fun i hge hpos => ?_, nofun⟩
    have hzero : s.market.executed i = 0 := hf.executed_eq_zero hge
    exact absurd hpos (by rw [submitAll]; exact hzero.not_gt)
  | append_singleton items item ih =>
    rw [submitAll_concat]
    have hplaced := submitAll_placed hf atomic items
    cases hb : (s.submitAll atomic items).failed with
    | some f =>
      rw [Batch.next_failed hb]
      exact ih
    | none =>
      rcases Batch.next_cases hb atomic item items.length with ⟨a, r, hsome, he⟩ | ⟨e, hnone, he⟩
      · rw [he]
        obtain ⟨-, hs⟩ := placeItem_accepted hplaced.fresh hsome
        exact ih.accept hplaced (acceptItem_market _ _) hs rfl (acceptItem_orders _ _) rfl
      · rw [he]
        have hi := placeItem_refused hplaced.fresh hnone
        split_ifs <;> exact ih.fail hi rfl rfl

/-- Every order of the request that executed anything is reported accepted and tracked with just
what it executed. -/
def RollbackHonest (x : Exchange B) (resp : BulkOrderResponse) (s' : AppState B F) : Prop :=
  resp.successCount = (resp.results.filter fun r => r.status = .accepted).length ∧
  ∀ i, x.nextOrderId ≤ i → 0 < s'.market.executed i →
    (∃ (n : ℕ) (w : Option String), resp.results[n]? = some ⟨n, some (showOrderId B i), .accepted, w⟩) ∧
    ∃ info, s'.orders.lookup (showOrderId B i) = some info ∧
      info.filledQuantity = s'.market.executed i

/-- The rollback of a failed batch is honest about executions exactly when no accepted item
traded with an earlier item of the batch. -/
theorem rollback_honest_iff [LawfulUpstream B] (hf : s.market.Fresh)
    (h : s.market.FailsAt items k) :
    ∃ resp s', s.bulkSubmitOrders ⟨items, true⟩ = (.ok resp, s') ∧
      (RollbackHonest s.market resp s' ↔ s.market.SelfCrossFree (items.take k)) := by
  obtain ⟨e, answer, out, he, hout, hindexed, hback⟩ := bulkSubmitOrders_fails hf h
  obtain ⟨-, hbefore, -⟩ := submitAll_stops s items he
  obtain ⟨item, hnone, hall⟩ := submitAll_failing s items he
  have hplaced := submitAll_placed hf true items
  have hcount := submitAll_counted hf true items
  have hadds := hback.addsUp hindexed (submitAll_failing_accepted s items he) h.1.le (e := e)
  have hexec : ∀ i, out.2.market.executed i = (s.submitAll true items).state.market.executed i := by
    intro i
    simp only [executed, hback.cleared.tape]
  have hmaker : ∀ i, (s.submitAll true items).state.market.executedAsMaker i =
      (s.market.placeItems (items.take k)).executedAsMaker i := by
    intro i
    have hidle := placeItem_refused (submitAll_placed hf true (items.take k)).fresh hnone
    rw [hall, ← submitAll_market s true _ hbefore]
    exact hidle.toQuiet.executedAsMaker i
  refine ⟨_, _, hout, ?_⟩
  rw [selfCrossFree_iff hf]
  constructor
  · rintro ⟨-, hhonest⟩ i hge
    by_contra hpos
    rw [← hmaker] at hpos
    have hle := executedAsMaker_le (s.submitAll true items).state.market i
    obtain ⟨o, ho, rfl⟩ := hcount.only i hge (by omega)
    obtain ⟨-, info, hinfo, hfilled⟩ := hhonest o.orderId hge (by rw [hexec]; omega)
    have htaken := hcount.taken o ho
    obtain ⟨info', hinfo', hfilled'⟩ := hcount.tracked o ho
    -- whatever the rollback made of the record, it says what was captured on submit
    rw [hback.tracked o ho, hinfo'] at hinfo
    unfold AcceptedBulkOrder.reconciled at hinfo
    have hcaptured : info.filledQuantity = o.filledQuantity := by
      split_ifs at hinfo
      · rw [← Option.some.inj hinfo]
        exact OrderInfo.rolledBack_filled _ _ _ _
      · rw [← Option.some.inj hinfo]
        exact hfilled'
    rw [hexec] at hfilled
    omega
  · intro hfree
    refine ⟨hadds.success, fun i hge hpos => ?_⟩
    rw [hexec] at hpos
    obtain ⟨o, ho, rfl⟩ := hcount.only i hge hpos
    have htaken := hcount.taken o ho
    rw [hmaker, hfree _ hge, Nat.add_zero] at htaken
    have hfill : 0 < o.filledQuantity := htaken ▸ hpos
    obtain ⟨item', a, hitem, -⟩ := hplaced.places o ho
    have hlt : o.index < items.length := (List.getElem?_eq_some_iff.mp hitem).1
    obtain ⟨info, hinfo, -⟩ := hcount.tracked o ho
    constructor
    · have hclass : classify B o (answer o.index) = .unrollbackable (showOrderId B o.orderId)
          (filledWarning (showOrderId B o.orderId) o.index o.filledQuantity (answer o.index)) := by
        simp only [classify, hfill, if_true]
      have hentry := hback.entry hindexed ho (k := k) (e := e)
      rw [hclass] at hentry
      refine ⟨o.index, some (filledWarning (showOrderId B o.orderId) o.index o.filledQuantity
        (answer o.index)), ?_⟩
      simp only [rollbackResponse, List.getElem?_map, List.getElem?_range hlt, Option.map_some,
        hentry, RollbackOutcome.entry]
    · refine ⟨info.rolledBack o.filledQuantity (answer o.index).toBool
        (s.submitAll true items).state.market.now, ?_, ?_⟩
      · rw [hback.tracked o ho, hinfo, AcceptedBulkOrder.reconciled, if_pos hfill]
        rfl
      · rw [OrderInfo.rolledBack_filled, hexec, htaken]

section Reference

theorem rollback_dishonest : ¬ ∀ (s : AppState ReferenceBook ℚ) items k, s.market.Fresh →
    s.market.FailsAt items k → ∀ resp s', s.bulkSubmitOrders ⟨items, true⟩ = (.ok resp, s') →
      RollbackHonest s.market resp s' := by
  intro h
  obtain ⟨e, answer, out, -, hout, -⟩ := bulkSubmitOrders_fails listed_fresh crossingItems_fails
  have hout' : out.2 = (listed.bulkSubmitOrders ⟨crossingItems, true⟩).2 := by rw [hout]
  have hexecuted : 0 < out.2.market.executed 0 := by
    rw [hout']
    decide +kernel
  have hgone : out.2.orders.lookup (showOrderId ReferenceBook 0) = none := by
    rw [hout']
    decide +kernel
  have hhonest := (h _ _ _ listed_fresh crossingItems_fails _ _ hout).2
  obtain ⟨-, info, hinfo, -⟩ := hhonest 0 (by decide +kernel) hexecuted
  rw [hgone] at hinfo
  cases hinfo

/-- Without the buy, the rolled-back batch executed nothing. -/
theorem rollback_honest_uncrossed : ∃ resp s',
    listed.bulkSubmitOrders ⟨[bulkItem 10000 .sell 100 5, bulkItem 20000 .buy 100 1], true⟩ =
      (.ok resp, s') ∧ RollbackHonest listed.market resp s' := by
  have hfails : listed.market.FailsAt
      [bulkItem 10000 .sell 100 5, bulkItem 20000 .buy 100 1] 1 := by
    apply (submitAll_fails_iff listed _ 1).mp
    exact ⟨"Strike not found: strike not found: 20000", by decide +kernel⟩
  obtain ⟨resp, s', hs, hiff⟩ := rollback_honest_iff listed_fresh hfails
  refine ⟨resp, s', hs, hiff.mpr ?_⟩
  rw [selfCrossFree_iff listed_fresh]
  intro i _
  have htape : (listed.market.placeItems [bulkItem 10000 .sell 100 5]).tape = [] := by
    decide +kernel
  change makerFilled ((listed.market.placeItems [bulkItem 10000 .sell 100 5]).tape.map _) i = 0
  rw [htape]
  rfl

end Reference
end AppState
end OptionChainBackend
