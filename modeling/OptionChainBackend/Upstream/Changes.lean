import OptionChainBackend.Upstream.Exchange

/-!
What one call can do to the exchange. Every call is one of four changes: nothing rests
differently (`Quiet`), an order matched and perhaps rests (`Filled`), one order left
(`Removed`), some orders left (`Shrunk`). Invariants are proved once for each change.
-/
namespace OptionChainBackend
open Upstream

section Trades
variable {ts us : List Trade} {i j : OrderId}

@[simp] theorem makerFilled_nil : makerFilled [] i = 0 := rfl

@[simp] theorem makerFilled_append :
    makerFilled (ts ++ us) i = makerFilled ts i + makerFilled us i := by
  simp [makerFilled]

theorem makerFilled_cons (t : Trade) :
    makerFilled (t :: ts) i = (if t.makerOrderId = i then t.quantity else 0) + makerFilled ts i := by
  by_cases h : t.makerOrderId = i <;> simp [makerFilled, h]

theorem makerFilled_eq_zero (h : ∀ t ∈ ts, t.makerOrderId ≠ i) : makerFilled ts i = 0 := by
  have hf : ts.filter (fun t => t.makerOrderId = i) = [] := by simpa using h
  simp [makerFilled, hf]

theorem makerFilled_pos {t : Trade} (ht : t ∈ ts) (hq : 0 < t.quantity) :
    0 < makerFilled ts t.makerOrderId := by
  refine hq.trans_le (List.le_sum_of_mem ?_)
  exact List.mem_map.mpr ⟨t, by simpa using ht, rfl⟩

end Trades

namespace RestingOrder

@[simp] theorem reduce_zero {o : RestingOrder} (h : 0 < o.visibleQuantity) :
    o.reduce 0 = some o := by
  simp [reduce, Nat.not_le.mpr h]

theorem reduce_some {o o' : RestingOrder} {q : ℕ} (h : o.reduce q = some o') :
    q < o.visibleQuantity ∧ o' = { o with visibleQuantity := o.visibleQuantity - q } := by
  unfold reduce at h
  split_ifs at h with hq
  exact ⟨Nat.not_le.mp hq, (Option.some.inj h).symm⟩

/-- The quantity `reduce` leaves, when no more executes than rests. -/
theorem reduce_quantity (o : RestingOrder) (q : ℕ) :
    ((o.reduce q).map visibleQuantity).getD 0 = o.visibleQuantity - q := by
  unfold reduce
  split_ifs with h
  · simp [Nat.sub_eq_zero_of_le h]
  · simp

end RestingOrder

namespace Matched
variable {B : Type} [Upstream B] {b : B} {k : TradeId} {id i : OrderId} {side : Side}
  {limit : Option ℕ} {q : ℕ} {r : MatchResult}

theorem remaining_le (h : Matched b k id side limit q r) : r.remainingQuantity ≤ q := by
  have := h.conserves
  omega

theorem filled_eq_zero_of_absent (h : Matched b k id side limit q r) (hi : getOrder b i = none) :
    makerFilled r.trades i = 0 := by
  refine makerFilled_eq_zero fun t ht he => ?_
  obtain ⟨o, ho, -⟩ := h.makers t ht
  rw [he, hi] at ho
  cases ho

/-- No crossing order on the other side: nothing trades. -/
theorem trades_eq_nil (h : Matched b k id side limit q r)
    (hc : ∀ i o, getOrder b i = some o → o.side = side.opposite → ¬ Crosses side limit o.price) :
    r.trades = [] := by
  refine List.eq_nil_iff_forall_not_mem.mpr fun t ht => ?_
  obtain ⟨o, ho, hs, -, hp⟩ := h.makers t ht
  exact hc _ o ho hs hp

end Matched

/-- What an order that may rest leaves, and what a fully matched one leaves. -/
theorem rested_quantity {id : OrderId} {side : Side} {price : ℕ} {tif : TimeInForce}
    {r : MatchResult} (h : tif.rests = true ∨ r.remainingQuantity = 0) :
    ((rested id side price tif r).map RestingOrder.visibleQuantity).getD 0 =
      r.remainingQuantity := by
  unfold rested
  rcases h with h | h
  · simp only [h, true_and]
    split_ifs with hpos
    · rfl
    · show 0 = r.remainingQuantity
      omega
  · simp [h]

namespace Exchange
variable {B : Type} [Upstream B]

/-- Nothing rests differently and nothing executed. -/
structure Quiet (x x' : Exchange B) : Prop where
  getOrder : ∀ c j, x'.getOrder c j = x.getOrder c j
  tape : x'.tape = x.tape
  home : x'.home = x.home
  nextOrderId : x.nextOrderId ≤ x'.nextOrderId

/-- Order `id` matched on book `a` with result `r` and leaves `left` resting. -/
structure Filled (x x' : Exchange B) (a : OptionAddr) (id : OrderId) (side : Side)
    (limit : Option ℕ) (q : ℕ) (r : MatchResult) (left : Option RestingOrder) : Prop where
  matched : Matched (x.books a) x.nextTradeId id side limit q r
  absent : x.getOrder a id = none
  getOrder : ∀ c j, x'.getOrder c j = if c = a then
    if j = id then left else (x.getOrder a j).bind (·.reduce (makerFilled r.trades j))
    else x.getOrder c j
  tape : x'.tape = x.tape ++ r.trades.map fun t => ⟨a, side, t⟩
  home : x'.home = Function.update x.home id (some a)
  nextOrderId : x'.nextOrderId = x.nextOrderId
  nextTradeId : x'.nextTradeId = x.nextTradeId + r.trades.length
  left_le : (left.map RestingOrder.visibleQuantity).getD 0 ≤ r.remainingQuantity

/-- Orders left the books; the others rest as before. -/
structure Shrunk (x x' : Exchange B) : Prop where
  getOrder : ∀ c j, x'.getOrder c j = x.getOrder c j ∨ x'.getOrder c j = none
  tape : x'.tape = x.tape
  home : x'.home = x.home
  nextOrderId : x'.nextOrderId = x.nextOrderId

/-- Order `id` rested on book `a` and left. -/
structure Removed (x x' : Exchange B) (a : OptionAddr) (id : OrderId) : Prop where
  present : (x.getOrder a id).isSome
  getOrder : ∀ c j, x'.getOrder c j = if c = a ∧ j = id then none else x.getOrder c j
  tape : x'.tape = x.tape
  home : x'.home = x.home
  nextOrderId : x'.nextOrderId = x.nextOrderId

variable {x x' x'' : Exchange B} {a c : OptionAddr} {id i j : OrderId} {side : Side}
  {limit : Option ℕ} {p q : ℕ} {r : MatchResult} {left : Option RestingOrder}

theorem Quiet.refl (x : Exchange B) : Quiet x x := ⟨fun _ _ => rfl, rfl, rfl, le_rfl⟩

theorem Quiet.trans (h : Quiet x x') (h' : Quiet x' x'') : Quiet x x'' where
  getOrder c j := (h'.getOrder c j).trans (h.getOrder c j)
  tape := h'.tape.trans h.tape
  home := h'.home.trans h.home
  nextOrderId := h.nextOrderId.trans h'.nextOrderId

theorem Removed.shrunk (h : Removed x x' a id) : Shrunk x x' where
  getOrder c j := by
    rw [h.getOrder c j]
    split_ifs
    · exact .inr rfl
    · exact .inl rfl
  tape := h.tape
  home := h.home
  nextOrderId := h.nextOrderId

theorem getOrder_update (b : B) (f : OptionAddr → B) (c j) :
    Upstream.getOrder (Function.update f a b c) j =
      if c = a then Upstream.getOrder b j else Upstream.getOrder (f c) j := by
  by_cases hc : c = a
  · subst hc
    simp
  · simp [hc]

theorem newOrderId_quiet (x : Exchange B) : Quiet x x.newOrderId.2 :=
  ⟨fun _ _ => rfl, rfl, rfl, Nat.le_succ _⟩

theorem getOrCreate_quiet (x : Exchange B) (u : String) : Quiet x (x.getOrCreate u) := by
  unfold getOrCreate
  split <;> exact ⟨fun _ _ => rfl, rfl, rfl, le_rfl⟩

theorem getOrCreateExpiration_quiet (x : Exchange B) (u : String) (e : ExpirationDate) :
    Quiet x (x.getOrCreateExpiration u e) := by
  unfold getOrCreateExpiration
  split <;> exact ⟨fun _ _ => rfl, rfl, rfl, le_rfl⟩

theorem getOrCreateStrike_quiet (x : Exchange B) (u : String) (e : ExpirationDate) (k : ℕ) :
    Quiet x (x.getOrCreateStrike u e k) := by
  unfold getOrCreateStrike
  split <;> exact ⟨fun _ _ => rfl, rfl, rfl, le_rfl⟩

theorem openBook_quiet (x : Exchange B) (a : OptionAddr) : Quiet x (x.openBook a) :=
  ((getOrCreate_quiet x _).trans (getOrCreateExpiration_quiet _ _ _)).trans
    (getOrCreateStrike_quiet _ _ _ _)

/-- `x'` has at least the option books of `x`. -/
def Grows (x x' : Exchange B) : Prop := ∀ a, x.hasBook a = true → x'.hasBook a = true

omit [Upstream B] in
theorem Grows.of_eq (h : x'.toCatalog = x.toCatalog) : Grows x x' := by
  intro a ha
  rw [h]
  exact ha

omit [Upstream B] in
theorem Grows.trans (h : Grows x x') (h' : Grows x' x'') : Grows x x'' := fun a ha =>
  h' a (h a ha)

omit [Upstream B] in
theorem getOrCreate_grows (x : Exchange B) (u : String) : Grows x (x.getOrCreate u) := by
  intro a ha
  unfold getOrCreate
  split_ifs
  · exact ha
  · simp only [Catalog.hasBook, Catalog.get, Catalog.getExpiration, Catalog.getStrike,
      Bool.and_eq_true, decide_eq_true_eq] at ha ⊢
    exact ⟨⟨List.mem_append_left _ ha.1.1, ha.1.2⟩, ha.2⟩

theorem getOrCreateExpiration_grows [LawfulUpstream B] (x : Exchange B) (u : String)
    (e : ExpirationDate) : Grows x (x.getOrCreateExpiration u e) := by
  intro a ha
  unfold getOrCreateExpiration
  split_ifs
  · exact ha
  · simp only [Catalog.hasBook, Catalog.get, Catalog.getExpiration, Catalog.getStrike,
      Bool.and_eq_true, decide_eq_true_eq] at ha ⊢
    refine ⟨⟨ha.1.1, ?_⟩, ha.2⟩
    by_cases hu : a.underlying = u
    · rw [hu, Function.update_self, (LawfulUpstream.enlist_perm _ _).mem_iff]
      exact List.mem_cons_of_mem _ (hu ▸ ha.1.2)
    · rw [Function.update_of_ne hu]
      exact ha.1.2

theorem getOrCreateStrike_grows (x : Exchange B) (u : String) (e : ExpirationDate) (k : ℕ) :
    Grows x (x.getOrCreateStrike u e k) := by
  intro a ha
  unfold getOrCreateStrike
  split_ifs
  · exact ha
  · simp only [Catalog.hasBook, Catalog.get, Catalog.getExpiration, Catalog.getStrike,
      Bool.and_eq_true, decide_eq_true_eq] at ha ⊢
    refine ⟨ha.1, ?_⟩
    by_cases hu : a.underlying = u
    · rw [hu, Function.update_self]
      by_cases he : a.expiration = e
      · rw [he, Function.update_self]
        exact List.mem_append_left _ (he ▸ hu ▸ ha.2)
      · rw [Function.update_of_ne he]
        exact hu ▸ ha.2
    · rw [Function.update_of_ne hu]
      exact ha.2

theorem openBook_grows [LawfulUpstream B] (x : Exchange B) (a : OptionAddr) :
    Grows x (x.openBook a) :=
  ((getOrCreate_grows x _).trans (getOrCreateExpiration_grows _ _ _)).trans
    (getOrCreateStrike_grows _ _ _ _)

omit [Upstream B] in
@[simp] theorem newOrderId_catalog (x : Exchange B) :
    x.newOrderId.2.toCatalog = x.toCatalog := rfl

@[simp] theorem addLimitOrderWithTif_catalog (x : Exchange B) (tif : TimeInForce) :
    (x.addLimitOrderWithTif a id side p q tif).2.toCatalog = x.toCatalog := rfl

@[simp] theorem submitMarketOrder_catalog (x : Exchange B) :
    (x.submitMarketOrder a id q side).2.toCatalog = x.toCatalog := rfl

@[simp] theorem cancelOrder_catalog (x : Exchange B) :
    (x.cancelOrder a id).2.toCatalog = x.toCatalog := rfl

@[simp] theorem restoreFromSnapshot_catalog (x : Exchange B) (s : OrderBookSnapshot) :
    (x.restoreFromSnapshot a s).2.toCatalog = x.toCatalog := rfl

section Calls
variable [LawfulUpstream B]

theorem addLimit_ok {tif : TimeInForce}
    (h : x.addLimitOrderWithTif a id side p q tif = (.ok r, x')) (hid : x.getOrder a id = none) :
    Filled x x' a id side (some p) q r (rested id side p tif r) ∧
      (tif = .fok → r.remainingQuantity = 0) := by
  unfold addLimitOrderWithTif at h
  obtain ⟨h1, rfl⟩ := Prod.mk.inj h
  obtain ⟨hm, hf, hg⟩ := LawfulUpstream.add_ok _ _ _ _ _ _ _ _ _ _ (Prod.ext h1 rfl) hid
  refine ⟨⟨hm, hid, fun c j => ?_, ?_, ?_, rfl, ?_, ?_⟩, hf⟩
  · unfold Exchange.getOrder applyMatch
    rw [getOrder_update, hg j]
  · simp [applyMatch, h1, tradesOf]
  · simp [applyMatch, h1]
  · simp [applyMatch, h1, tradesOf]
  · unfold rested
    split_ifs <;> simp

theorem addLimit_error {tif : TimeInForce} {e : String}
    (h : x.addLimitOrderWithTif a id side p q tif = (.error e, x')) : Quiet x x' := by
  unfold addLimitOrderWithTif at h
  obtain ⟨h1, rfl⟩ := Prod.mk.inj h
  have hg := LawfulUpstream.add_error _ _ _ _ _ _ _ _ _ _ (Prod.ext h1 rfl)
  refine ⟨fun c j => ?_, ?_, ?_, le_rfl⟩
  · unfold Exchange.getOrder applyMatch
    rw [getOrder_update, hg j]
    split_ifs with hc
    · rw [hc]
    · rfl
  · simp [applyMatch, h1, tradesOf]
  · simp [applyMatch, h1]

theorem market_ok (h : x.submitMarketOrder a id q side = (.ok r, x'))
    (hid : x.getOrder a id = none) : Filled x x' a id side none q r none := by
  unfold submitMarketOrder at h
  obtain ⟨h1, rfl⟩ := Prod.mk.inj h
  obtain ⟨hm, hg⟩ := LawfulUpstream.market_ok _ _ _ _ _ _ _ _ (Prod.ext h1 rfl) hid
  refine ⟨hm, hid, fun c j => ?_, ?_, ?_, rfl, ?_, by simp⟩
  · unfold Exchange.getOrder applyMatch
    rw [getOrder_update, hg j]
    by_cases hj : j = id
    · subst hj
      have hnone : Upstream.getOrder (x.books a) j = none := hid
      simp [hnone]
    · simp [hj]
  · simp [applyMatch, h1, tradesOf]
  · simp [applyMatch, h1]
  · simp [applyMatch, h1, tradesOf]

theorem market_error {e : String} (h : x.submitMarketOrder a id q side = (.error e, x')) :
    Quiet x x' := by
  unfold submitMarketOrder at h
  obtain ⟨h1, rfl⟩ := Prod.mk.inj h
  have hg := LawfulUpstream.market_error _ _ _ _ _ _ _ _ (Prod.ext h1 rfl)
  refine ⟨fun c j => ?_, ?_, ?_, le_rfl⟩
  · unfold Exchange.getOrder applyMatch
    rw [getOrder_update, hg j]
    split_ifs with hc
    · rw [hc]
    · rfl
  · simp [applyMatch, h1, tradesOf]
  · simp [applyMatch, h1]

theorem cancel_true (h : x.cancelOrder a id = (.ok true, x')) : Removed x x' a id := by
  unfold cancelOrder at h
  obtain ⟨h1, rfl⟩ := Prod.mk.inj h
  obtain ⟨hp, hg⟩ := LawfulUpstream.cancel_true _ _ _ (Prod.ext h1 rfl)
  refine ⟨hp, fun c j => ?_, rfl, rfl, rfl⟩
  unfold Exchange.getOrder
  simp only [getOrder_update, hg j]
  by_cases hc : c = a
  · subst hc
    simp
  · simp [hc]

/-- A cancel that does not report a removal leaves every order where it was. -/
theorem cancel_quiet {res : Except String Bool} (h : x.cancelOrder a id = (res, x'))
    (hres : res ≠ .ok true) : Quiet x x' := by
  unfold cancelOrder at h
  obtain ⟨h1, rfl⟩ := Prod.mk.inj h
  have hg : ∀ j, Upstream.getOrder (Upstream.cancelOrder (x.books a) id).2 j =
      Upstream.getOrder (x.books a) j := by
    match res, hres with
    | .ok false, _ => exact (LawfulUpstream.cancel_false _ _ _ (Prod.ext h1 rfl)).2
    | .error e, _ => exact LawfulUpstream.cancel_error _ _ _ _ (Prod.ext h1 rfl)
    | .ok true, hne => exact absurd rfl hne
  refine ⟨fun c j => ?_, rfl, rfl, le_rfl⟩
  unfold Exchange.getOrder
  simp only [getOrder_update, hg j]
  split_ifs with hc
  · rw [hc]
  · rfl

theorem cancel_false_absent (h : x.cancelOrder a id = (.ok false, x')) :
    x.getOrder a id = none := by
  obtain ⟨h1, -⟩ := Prod.mk.inj h
  exact (LawfulUpstream.cancel_false _ _ _ (Prod.ext h1 rfl)).1

theorem tick_shrunk (x : Exchange B) (ms : ℕ) : Shrunk x (x.tick ms) := by
  refine ⟨fun c j => ?_, rfl, rfl, rfl⟩
  rcases LawfulUpstream.lapse_getOrder (x.now + ms) (x.books c) j with h | ⟨h, -⟩
  · exact .inl h
  · exact .inr h

theorem remove_shrunk (x : Exchange B) (u : String) : Shrunk x (x.remove u) := by
  refine ⟨fun c j => ?_, rfl, rfl, rfl⟩
  unfold Exchange.getOrder remove
  by_cases hc : c.underlying = u
  · simp [hc, LawfulUpstream.getOrder_empty]
  · simp [hc]

end Calls

section Fresh

theorem getOrder_init [LawfulUpstream B] (a : OptionAddr) (i : OrderId) :
    (init : Exchange B).getOrder a i = none := LawfulUpstream.getOrder_empty i

theorem init_fresh [LawfulUpstream B] : (init : Exchange B).Fresh where
  resting ho := by
    rw [getOrder_init] at ho
    cases ho
  home ho := by cases ho
  taped e he := by cases he

theorem init_homed [LawfulUpstream B] : (init : Exchange B).Homed := by
  intro i a o ho
  rw [getOrder_init] at ho
  cases ho

theorem Fresh.absent (h : Fresh x) (hi : x.nextOrderId ≤ i) : x.getOrder a i = none := by
  cases ho : x.getOrder a i with
  | none => rfl
  | some o => exact absurd (h.resting ho) (Nat.not_lt.mpr hi)

theorem Fresh.home_eq_none (h : Fresh x) (hi : x.nextOrderId ≤ i) : x.home i = none := by
  cases ho : x.home i with
  | none => rfl
  | some o => exact absurd (h.home ho) (Nat.not_lt.mpr hi)

theorem Fresh.executed_eq_zero (h : Fresh x) (hi : x.nextOrderId ≤ i) : x.executed i = 0 := by
  have hf : x.tape.filter (fun e => e.trade.involves i) = [] := by
    refine List.filter_eq_nil_iff.mpr fun e he => ?_
    obtain ⟨ht, hm⟩ := h.taped e he
    simp only [Trade.involves, Bool.or_eq_true, decide_eq_true_eq, not_or]
    exact ⟨(ht.trans_le hi).ne, (hm.trans_le hi).ne⟩
  rw [executed, hf]
  rfl

theorem Fresh.executedAsMaker_eq_zero (h : Fresh x) (hi : x.nextOrderId ≤ i) :
    x.executedAsMaker i = 0 := by
  refine makerFilled_eq_zero fun t ht he => ?_
  obtain ⟨e, hm, rfl⟩ := List.mem_map.mp ht
  exact ((h.taped e hm).2.trans_le hi).ne he

theorem Fresh.quiet (h : Fresh x) (hq : Quiet x x') : Fresh x' where
  resting ho := (h.resting ((hq.getOrder _ _).symm.trans ho)).trans_le hq.nextOrderId
  home ho := (h.home (by rwa [← hq.home])).trans_le hq.nextOrderId
  taped e he := by
    rw [hq.tape] at he
    have ht := h.taped e he
    exact ⟨ht.1.trans_le hq.nextOrderId, ht.2.trans_le hq.nextOrderId⟩

theorem Fresh.shrunk (h : Fresh x) (hs : Shrunk x x') : Fresh x' where
  resting {c j o} ho := by
    rw [hs.nextOrderId]
    rcases hs.getOrder c j with he | he
    · exact h.resting (he.symm.trans ho)
    · rw [he] at ho
      cases ho
  home ho := by
    rw [hs.nextOrderId]
    rw [hs.home] at ho
    exact h.home ho
  taped e he := by
    rw [hs.nextOrderId]
    rw [hs.tape] at he
    exact h.taped e he

theorem Fresh.filled (h : Fresh x) (hid : id < x.nextOrderId)
    (hf : Filled x x' a id side limit q r left) : Fresh x' where
  resting {c j o} ho := by
    rw [hf.nextOrderId]
    rw [hf.getOrder] at ho
    split_ifs at ho with hc hj
    · exact hj ▸ hid
    · obtain ⟨o', ho', -⟩ := Option.bind_eq_some_iff.mp ho
      exact h.resting ho'
    · exact h.resting ho
  home {j c} ho := by
    rw [hf.nextOrderId]
    rw [hf.home, Function.update_apply] at ho
    split_ifs at ho with hj
    · exact hj ▸ hid
    · exact h.home ho
  taped e he := by
    rw [hf.nextOrderId]
    rw [hf.tape] at he
    rcases List.mem_append.mp he with he | he
    · exact h.taped e he
    · obtain ⟨t, ht, rfl⟩ := List.mem_map.mp he
      obtain ⟨o, ho, -⟩ := hf.matched.makers t ht
      exact ⟨(hf.matched.takers t ht).symm ▸ hid, h.resting ho⟩

theorem HomedAt.quiet (h : HomedAt x j) (hq : Quiet x x') : HomedAt x' j := by
  intro c o ho
  rw [hq.home]
  exact h ((hq.getOrder c j).symm.trans ho)

theorem HomedAt.shrunk (h : HomedAt x j) (hs : Shrunk x x') : HomedAt x' j := by
  intro c o ho
  rw [hs.home]
  rcases hs.getOrder c j with he | he
  · exact h (he.symm.trans ho)
  · rw [he] at ho
    cases ho

theorem HomedAt.filled (h : HomedAt x j) (habs : ∀ c, x.getOrder c id = none)
    (hf : Filled x x' a id side limit q r left) : HomedAt x' j := by
  intro c o ho
  rw [hf.home, Function.update_apply]
  rw [hf.getOrder] at ho
  by_cases hj : j = id
  · subst hj
    by_cases hc : c = a
    · simp [hc]
    · rw [if_neg hc, habs c] at ho
      cases ho
  · rw [if_neg hj]
    by_cases hc : c = a
    · rw [if_pos hc, if_neg hj] at ho
      obtain ⟨o', ho', -⟩ := Option.bind_eq_some_iff.mp ho
      exact hc ▸ h ho'
    · rw [if_neg hc] at ho
      exact h ho

theorem Homed.quiet (h : Homed x) (hq : Quiet x x') : Homed x' := fun j => (h j).quiet hq

theorem Homed.shrunk (h : Homed x) (hs : Shrunk x x') : Homed x' := fun j => (h j).shrunk hs

theorem Homed.filled (h : Homed x) (habs : ∀ c, x.getOrder c id = none)
    (hf : Filled x x' a id side limit q r left) : Homed x' := fun j => (h j).filled habs hf

end Fresh

section Quantities

theorem remaining_of_home (h : x.home i = some a) :
    x.remaining i = ((x.getOrder a i).map RestingOrder.visibleQuantity).getD 0 := by
  simp [remaining, h]

theorem HomedAt.remaining_eq (h : HomedAt x i) {o : RestingOrder} (ho : x.getOrder a i = some o) :
    x.remaining i = o.visibleQuantity := by
  simp [remaining_of_home (h ho), ho]

theorem Quiet.remaining (h : Quiet x x') (i : OrderId) : x'.remaining i = x.remaining i := by
  simp only [Exchange.remaining, h.home, h.getOrder]

theorem Quiet.executed (h : Quiet x x') (i : OrderId) : x'.executed i = x.executed i := by
  simp only [Exchange.executed, h.tape]

theorem Quiet.executedAsMaker (h : Quiet x x') (i : OrderId) :
    x'.executedAsMaker i = x.executedAsMaker i := by
  simp only [Exchange.executedAsMaker, h.tape]

theorem Shrunk.remaining_le (h : Shrunk x x') (i : OrderId) : x'.remaining i ≤ x.remaining i := by
  simp only [Exchange.remaining, h.home]
  split
  · rename_i a _
    rcases h.getOrder a i with he | he <;> simp [he]
  · exact le_rfl

theorem Shrunk.executed (h : Shrunk x x') (i : OrderId) : x'.executed i = x.executed i := by
  simp only [Exchange.executed, h.tape]

theorem Shrunk.executedAsMaker (h : Shrunk x x') (i : OrderId) :
    x'.executedAsMaker i = x.executedAsMaker i := by
  simp only [Exchange.executedAsMaker, h.tape]

theorem Removed.remaining_self (h : Removed x x' a id) (hx : HomedAt x id) : x'.remaining id = 0 := by
  obtain ⟨o, ho⟩ := Option.isSome_iff_exists.mp h.present
  have hh : x'.home id = some a := by
    rw [h.home]
    exact hx ho
  simp [remaining_of_home hh, h.getOrder]

theorem Removed.remaining_ne (h : Removed x x' a id) (hi : i ≠ id) :
    x'.remaining i = x.remaining i := by
  simp only [Exchange.remaining, h.home, h.getOrder, hi, and_false, if_false]

theorem Filled.executedAsMaker (h : Filled x x' a id side limit q r left) (i : OrderId) :
    x'.executedAsMaker i = x.executedAsMaker i + makerFilled r.trades i := by
  simp [Exchange.executedAsMaker, h.tape, Function.comp_def]

theorem Filled.maker_ne (h : Filled x x' a id side limit q r left) {t : Trade}
    (ht : t ∈ r.trades) : t.makerOrderId ≠ id := by
  intro he
  obtain ⟨o, ho, -⟩ := h.matched.makers t ht
  have habs : Upstream.getOrder (x.books a) id = none := h.absent
  rw [he, habs] at ho
  cases ho

theorem Filled.executed_self (h : Filled x x' a id side limit q r left) :
    x'.executed id = x.executed id + r.executedQuantity := by
  have hall : r.trades.filter (fun t => t.involves id) = r.trades := by
    refine List.filter_eq_self.mpr fun t ht => ?_
    simp [Trade.involves, h.matched.takers t ht]
  simp [Exchange.executed, h.tape, List.filter_map, Function.comp_def, hall,
    MatchResult.executedQuantity]

theorem Filled.executed_ne (h : Filled x x' a id side limit q r left) (hi : i ≠ id) :
    x'.executed i = x.executed i + makerFilled r.trades i := by
  have hall : r.trades.filter (fun t => t.involves i) =
      r.trades.filter fun t => t.makerOrderId = i := by
    refine List.filter_congr fun t ht => ?_
    simp [Trade.involves, h.matched.takers t ht, Ne.symm hi]
  simp [Exchange.executed, h.tape, List.filter_map, Function.comp_def, hall, makerFilled]

theorem Filled.remaining_self (h : Filled x x' a id side limit q r left) :
    x'.remaining id = (left.map RestingOrder.visibleQuantity).getD 0 := by
  have hh : x'.home id = some a := by simp [h.home]
  simp [remaining_of_home hh, h.getOrder]

/-- A maker order loses exactly what executed against it. -/
theorem Filled.remaining_ne (h : Filled x x' a id side limit q r left) (hx : HomedAt x i)
    (hi : i ≠ id) : x'.remaining i + makerFilled r.trades i = x.remaining i := by
  have hh : x'.home i = x.home i := by simp [h.home, hi]
  cases ho : x.getOrder a i with
  | some o =>
    have hb := h.matched.bounded i o ho
    rw [remaining_of_home (hh.trans (hx ho)), hx.remaining_eq ho, h.getOrder]
    simp only [if_true, hi, if_false, ho, Option.bind_some, RestingOrder.reduce_quantity]
    omega
  | none =>
    rw [h.matched.filled_eq_zero_of_absent ho, Nat.add_zero]
    unfold Exchange.remaining
    rw [hh]
    cases hc : x.home i with
    | none => rfl
    | some c =>
      simp only [h.getOrder]
      by_cases hca : c = a
      · subst hca
        simp [hi, ho]
      · simp [hca]

/-- No match adds to what rests of an order placed before. -/
theorem Filled.remaining_le (h : Filled x x' a id side limit q r left) (hi : i ≠ id) :
    x'.remaining i ≤ x.remaining i := by
  have hh : x'.home i = x.home i := by simp [h.home, hi]
  unfold Exchange.remaining
  rw [hh]
  cases x.home i with
  | none => exact le_rfl
  | some c =>
    simp only [h.getOrder]
    by_cases hc : c = a
    · subst hc
      rw [if_pos rfl, if_neg hi]
      cases x.getOrder c i with
      | none => exact le_rfl
      | some o =>
        simp only [Option.bind_some, RestingOrder.reduce_quantity]
        exact Nat.sub_le _ _
    · rw [if_neg hc]

end Quantities
end Exchange
end OptionChainBackend
