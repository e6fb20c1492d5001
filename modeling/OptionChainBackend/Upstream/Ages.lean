import OptionChainBackend.Upstream.Changes

/-!
What a call leaves true of the orders placed before it. `Idle`, `Submitted` and `Cancelled` are
the answers a handler can get from one book call; `Ages` and `Wanes` are what any row of calls
amounts to.
-/
namespace OptionChainBackend
namespace Exchange
variable {B : Type} [Upstream B] {x x' x'' : Exchange B} {a : OptionAddr} {i id : OrderId}
  {side : Side} {limit : Option ℕ} {p q : ℕ} {r : MatchResult} {left : Option RestingOrder}
  {tif : TimeInForce}

/-- Nothing executed and nothing rests differently; books may have been opened. -/
structure Idle (x x' : Exchange B) : Prop extends Quiet x x' where
  grows : Grows x x'
  now : x'.now = x.now
  nextTradeId : x'.nextTradeId = x.nextTradeId

/-- An order with a fresh id was accepted on book `a`. -/
structure Submitted (x x' : Exchange B) (a : OptionAddr) (side : Side) (limit : Option ℕ)
    (q : ℕ) (r : MatchResult) (left : Option RestingOrder) : Prop where
  filled : Filled x.newOrderId.2 x' a x.nextOrderId side limit q r left
  grows : Grows x x'
  now : x'.now = x.now

/-- Order `id` rested on book `a` and was cancelled. -/
structure Cancelled (x x' : Exchange B) (a : OptionAddr) (id : OrderId) : Prop
    extends Removed x x' a id where
  catalog : x'.toCatalog = x.toCatalog
  now : x'.now = x.now
  nextTradeId : x'.nextTradeId = x.nextTradeId

/-- The orders of book `a` are those of a snapshot now. -/
structure Restored (x x' : Exchange B) (a : OptionAddr) (snapshot : OrderBookSnapshot) :
    Prop where
  getOrder : ∀ c j, x'.getOrder c j =
    if c = a then snapshot.orders.find? (·.id = j) else x.getOrder c j
  tape : x'.tape = x.tape
  home : x'.home = x.home
  nextOrderId : x'.nextOrderId = x.nextOrderId
  nextTradeId : x'.nextTradeId = x.nextTradeId
  grows : Grows x x'

theorem Idle.refl (x : Exchange B) : Idle x x := ⟨.refl x, .of_eq rfl, rfl, rfl⟩

theorem Idle.trans (h : Idle x x') (h' : Idle x' x'') : Idle x x'' :=
  ⟨h.toQuiet.trans h'.toQuiet, h.grows.trans h'.grows, h'.now.trans h.now,
    h'.nextTradeId.trans h.nextTradeId⟩

theorem getOrCreate_idle (x : Exchange B) (u : String) : Idle x (x.getOrCreate u) := by
  refine ⟨getOrCreate_quiet x u, getOrCreate_grows x u, ?_, ?_⟩ <;>
    · unfold getOrCreate
      split_ifs <;> rfl

theorem getOrCreateExpiration_idle [LawfulUpstream B] (x : Exchange B) (u : String)
    (e : ExpirationDate) : Idle x (x.getOrCreateExpiration u e) := by
  refine ⟨getOrCreateExpiration_quiet x u e, getOrCreateExpiration_grows x u e, ?_, ?_⟩ <;>
    · unfold getOrCreateExpiration
      split_ifs <;> rfl

theorem getOrCreateStrike_idle (x : Exchange B) (u : String) (e : ExpirationDate) (k : ℕ) :
    Idle x (x.getOrCreateStrike u e k) := by
  refine ⟨getOrCreateStrike_quiet x u e k, getOrCreateStrike_grows x u e k, ?_, ?_⟩ <;>
    · unfold getOrCreateStrike
      split_ifs <;> rfl

theorem openBook_idle [LawfulUpstream B] (x : Exchange B) (a : OptionAddr) :
    Idle x (x.openBook a) :=
  ((getOrCreate_idle x _).trans (getOrCreateExpiration_idle _ _ _)).trans
    (getOrCreateStrike_idle _ _ _ _)

omit [Upstream B] in
theorem getOrCreate_books (x : Exchange B) (u : String) :
    (x.getOrCreate u).books = x.books ∧ (x.getOrCreate u).nextOrderId = x.nextOrderId := by
  unfold getOrCreate
  split_ifs <;> exact ⟨rfl, rfl⟩

theorem openBook_books (x : Exchange B) (a : OptionAddr) :
    (x.openBook a).books = x.books ∧ (x.openBook a).nextOrderId = x.nextOrderId := by
  unfold openBook getOrCreate getOrCreateExpiration getOrCreateStrike
  split_ifs <;> exact ⟨rfl, rfl⟩

theorem openBook_of_hasBook (h : x.hasBook a = true) : x.openBook a = x := by
  simp only [Catalog.hasBook, Bool.and_eq_true] at h
  simp [openBook, getOrCreate, getOrCreateExpiration, getOrCreateStrike, h.1.1, h.1.2, h.2]

/-- The steps before the strike leave strikes and symbols alone. -/
theorem getOrCreateExpiration_lists (x : Exchange B) (u : String) (e : ExpirationDate) :
    ((x.getOrCreate u).getOrCreateExpiration u e).strikes = x.strikes ∧
      ((x.getOrCreate u).getOrCreateExpiration u e).symbols = x.symbols := by
  unfold getOrCreateExpiration getOrCreate
  split_ifs <;> exact ⟨rfl, rfl⟩

/-- A strike that is listed keeps its symbols. -/
theorem openBook_of_strike (h : x.getStrike a.underlying a.expiration a.strike = true) :
    (x.openBook a).symbols = x.symbols := by
  obtain ⟨hstrikes, hsymbols⟩ := getOrCreateExpiration_lists x a.underlying a.expiration
  unfold openBook getOrCreateStrike
  rw [if_pos]
  · exact hsymbols
  · unfold Catalog.getStrike
    rw [hstrikes]
    exact h

theorem openBook_symbols (x : Exchange B) (a : OptionAddr) {c : OptionAddr}
    (h : x.hasBook c = true) : (x.openBook a).symbols c = x.symbols c := by
  by_cases hs : x.getStrike a.underlying a.expiration a.strike = true
  · rw [openBook_of_strike hs]
  · obtain ⟨hstrikes, hsymbols⟩ := getOrCreateExpiration_lists x a.underlying a.expiration
    have hne : ¬ (c.underlying = a.underlying ∧ c.expiration = a.expiration ∧
        c.strike = a.strike) := by
      rintro ⟨hu, he, hk⟩
      simp only [Catalog.hasBook, Bool.and_eq_true, hu, he, hk] at h
      exact hs h.2
    unfold openBook getOrCreateStrike
    split_ifs
    · rw [hsymbols]
    · exact (if_neg hne).trans (congrFun hsymbols c)

theorem hasBook_openBook [LawfulUpstream B] (x : Exchange B) (a : OptionAddr) :
    (x.openBook a).hasBook a = true := by
  have hget : (x.getOrCreate a.underlying).get a.underlying = true := by
    unfold getOrCreate
    split_ifs with h
    · exact h
    · simp [Catalog.get]
  have hexp : ((x.getOrCreate a.underlying).getOrCreateExpiration a.underlying
      a.expiration).getExpiration a.underlying a.expiration = true := by
    unfold getOrCreateExpiration
    split_ifs with h
    · exact h
    · simp only [Catalog.getExpiration, Function.update_self, decide_eq_true_eq]
      exact (LawfulUpstream.enlist_perm _ _).mem_iff.mpr List.mem_cons_self
  have hkept : ((x.getOrCreate a.underlying).getOrCreateExpiration a.underlying
      a.expiration).get a.underlying = true := by
    unfold getOrCreateExpiration
    split_ifs <;> exact hget
  unfold openBook getOrCreateStrike
  split_ifs with h
  · simp [Catalog.hasBook, hkept, hexp, h]
  · simp only [Catalog.hasBook, Catalog.getStrike, Function.update_self, Bool.and_eq_true,
      decide_eq_true_eq]
    exact ⟨⟨hkept, hexp⟩, List.mem_append_right _ (List.mem_singleton_self _)⟩

/-- Opening books before a submission makes no difference to it. -/
theorem Submitted.of_idle {m : Exchange B} (h : Idle x m) (hb : m.books = x.books)
    (hn : m.nextOrderId = x.nextOrderId) (hs : Submitted m x' a side limit q r left) :
    Submitted x x' a side limit q r left where
  filled := by
    have hf := hs.filled
    rw [hn] at hf
    have hm := hf.matched
    have ht := hf.tape
    have hh := hf.home
    have hid := hf.nextOrderId
    have htr := hf.nextTradeId
    have habs := hf.absent
    have hg := hf.getOrder
    simp only [newOrderId, Exchange.getOrder, hb, hn] at hm ht hh hid htr habs hg
    exact ⟨h.nextTradeId ▸ hm, habs, hg, h.tape ▸ ht, h.home ▸ hh, hid, h.nextTradeId ▸ htr,
      hf.left_le⟩
  grows := h.grows.trans hs.grows
  now := hs.now.trans h.now

theorem addLimit_error_trades {e : String}
    (h : x.addLimitOrderWithTif a id side p q tif = (.error e, x')) :
    x'.nextTradeId = x.nextTradeId := by
  unfold addLimitOrderWithTif at h
  obtain ⟨h1, rfl⟩ := Prod.mk.inj h
  simp [applyMatch, h1, tradesOf]

theorem market_error_trades {e : String}
    (h : x.submitMarketOrder a id q side = (.error e, x')) : x'.nextTradeId = x.nextTradeId := by
  unfold submitMarketOrder at h
  obtain ⟨h1, rfl⟩ := Prod.mk.inj h
  simp [applyMatch, h1, tradesOf]

section Answers
variable [LawfulUpstream B]

/-- A submission is refused and nothing changes, or it is accepted. -/
theorem addLimit_cases (hx : x.Fresh) (a : OptionAddr) (side : Side) (p q : ℕ)
    (tif : TimeInForce) :
    (∃ e x', x.newOrderId.2.addLimitOrderWithTif a x.nextOrderId side p q tif = (.error e, x') ∧
      Idle x x') ∨
    ∃ r x', x.newOrderId.2.addLimitOrderWithTif a x.nextOrderId side p q tif = (.ok r, x') ∧
      Submitted x x' a side (some p) q r (rested x.nextOrderId side p tif r) ∧
      (tif = .fok → r.remainingQuantity = 0) := by
  cases h : x.newOrderId.2.addLimitOrderWithTif a x.nextOrderId side p q tif with
  | mk res x' =>
    have hcat : x'.toCatalog = x.toCatalog := (congrArg (·.2.toCatalog) h).symm
    have hnow : x'.now = x.now := (congrArg (·.2.now) h).symm
    cases res with
    | error e =>
      have hq := (newOrderId_quiet x).trans (addLimit_error h)
      have htr : x'.nextTradeId = x.newOrderId.2.nextTradeId := addLimit_error_trades h
      exact .inl ⟨e, x', rfl, hq, .of_eq hcat, hnow, htr⟩
    | ok r =>
      obtain ⟨hf, hfok⟩ := addLimit_ok h (hx.absent le_rfl)
      exact .inr ⟨r, x', rfl, ⟨hf, .of_eq hcat, hnow⟩, hfok⟩

theorem market_cases (hx : x.Fresh) (a : OptionAddr) (side : Side) (q : ℕ) :
    (∃ e x', x.newOrderId.2.submitMarketOrder a x.nextOrderId q side = (.error e, x') ∧
      Idle x x') ∨
    ∃ r x', x.newOrderId.2.submitMarketOrder a x.nextOrderId q side = (.ok r, x') ∧
      Submitted x x' a side none q r none := by
  cases h : x.newOrderId.2.submitMarketOrder a x.nextOrderId q side with
  | mk res x' =>
    have hcat : x'.toCatalog = x.toCatalog := (congrArg (·.2.toCatalog) h).symm
    have hnow : x'.now = x.now := (congrArg (·.2.now) h).symm
    cases res with
    | error e =>
      have hq := (newOrderId_quiet x).trans (market_error h)
      have htr : x'.nextTradeId = x.newOrderId.2.nextTradeId := market_error_trades h
      exact .inl ⟨e, x', rfl, hq, .of_eq hcat, hnow, htr⟩
    | ok r => exact .inr ⟨r, x', rfl, market_ok h (hx.absent le_rfl), .of_eq hcat, hnow⟩

theorem cancel_idle {res : Except String Bool} (h : x.cancelOrder a id = (res, x'))
    (hres : res ≠ .ok true) : Idle x x' where
  toQuiet := cancel_quiet h hres
  grows := .of_eq (congrArg (·.2.toCatalog) h).symm
  now := (congrArg (·.2.now) h).symm
  nextTradeId := (congrArg (·.2.nextTradeId) h).symm

theorem cancel_cancelled (h : x.cancelOrder a id = (.ok true, x')) : Cancelled x x' a id where
  toRemoved := cancel_true h
  catalog := (congrArg (·.2.toCatalog) h).symm
  now := (congrArg (·.2.now) h).symm
  nextTradeId := (congrArg (·.2.nextTradeId) h).symm

theorem restore_cases (x : Exchange B) (a : OptionAddr) (snapshot : OrderBookSnapshot) :
    (∃ e x', x.restoreFromSnapshot a snapshot = (.error e, x') ∧ Idle x x') ∨
    ∃ x', x.restoreFromSnapshot a snapshot = (.ok (), x') ∧ Restored x x' a snapshot := by
  unfold restoreFromSnapshot
  cases h : Upstream.restoreFromSnapshot (x.books a) snapshot with
  | mk res b =>
    have hupdate : ∀ c j, Upstream.getOrder (Function.update x.books a b c) j =
        if c = a then Upstream.getOrder b j else x.getOrder c j := fun c j =>
      getOrder_update b x.books c j
    cases res with
    | error e =>
      have hg := LawfulUpstream.restore_error _ _ _ _ h
      refine .inl ⟨e, _, rfl, ⟨fun c j => (hupdate c j).trans ?_, rfl, rfl, le_rfl⟩, .of_eq rfl,
        rfl, rfl⟩
      split_ifs with hc
      · rw [hg, hc]
        rfl
      · rfl
    | ok u =>
      have hg := LawfulUpstream.restore_ok _ _ _ h
      refine .inr ⟨_, rfl, fun c j => (hupdate c j).trans ?_, rfl, rfl, rfl, rfl, .of_eq rfl⟩
      rw [hg]

end Answers

section Aging

/-- Time passed: ids stay issued, orders keep the book they were placed on, executions stay. -/
structure Ages (x x' : Exchange B) : Prop where
  fresh : x'.Fresh
  next : x.nextOrderId ≤ x'.nextOrderId
  home : ∀ {i a}, x.home i = some a → x'.home i = some a
  executed : ∀ i, x.executed i ≤ x'.executed i

/-- Time passed, and nothing came back to its book. -/
structure Wanes (x x' : Exchange B) : Prop extends Ages x x' where
  remaining : ∀ {i a}, x.home i = some a → x'.remaining i ≤ x.remaining i
  homed : x.Homed → x'.Homed

theorem Ages.refl (hx : x.Fresh) : Ages x x := ⟨hx, le_rfl, id, fun _ => le_rfl⟩

theorem Ages.trans (h : Ages x x') (h' : Ages x' x'') : Ages x x'' :=
  ⟨h'.fresh, h.next.trans h'.next, fun hi => h'.home (h.home hi),
    fun i => (h.executed i).trans (h'.executed i)⟩

theorem Wanes.refl (hx : x.Fresh) : Wanes x x := ⟨.refl hx, fun _ => le_rfl, id⟩

theorem Wanes.trans (h : Wanes x x') (h' : Wanes x' x'') : Wanes x x'' :=
  ⟨h.toAges.trans h'.toAges, fun hi => (h'.remaining (h.home hi)).trans (h.remaining hi),
    h'.homed ∘ h.homed⟩

theorem Quiet.wanes (h : Quiet x x') (hx : x.Fresh) : Wanes x x' where
  fresh := hx.quiet h
  next := h.nextOrderId
  home hi := by rwa [h.home]
  executed i := (h.executed i).ge
  remaining _ := (h.remaining _).le
  homed hh := hh.quiet h

theorem Shrunk.wanes (h : Shrunk x x') (hx : x.Fresh) : Wanes x x' where
  fresh := hx.shrunk h
  next := h.nextOrderId.ge
  home hi := by rwa [h.home]
  executed i := (h.executed i).ge
  remaining _ := h.remaining_le _
  homed hh := hh.shrunk h

theorem Filled.wanes (h : Filled x x' a id side limit q r left) (hx : x.Fresh)
    (hid : id < x.nextOrderId) (hnew : x.home id = none) : Wanes x x' := by
  have hne : ∀ {i c}, x.home i = some c → i ≠ id := by
    rintro i c hi rfl
    rw [hnew] at hi
    cases hi
  refine ⟨⟨hx.filled hid h, h.nextOrderId.ge, fun hi => ?_, fun i => ?_⟩, fun hi => ?_,
    fun hh => hh.filled (fun c => ?_) h⟩
  · rw [h.home, Function.update_of_ne (hne hi)]
    exact hi
  · by_cases hi : i = id
    · rw [hi, h.executed_self]
      exact Nat.le_add_right _ _
    · rw [h.executed_ne hi]
      exact Nat.le_add_right _ _
  · exact h.remaining_le (hne hi)
  · cases ho : x.getOrder c id with
    | none => rfl
    | some o =>
      have hhome := hh id ho
      rw [hnew] at hhome
      cases hhome

theorem Submitted.wanes (h : Submitted x x' a side limit q r left) (hx : x.Fresh) :
    Wanes x x' := by
  have hx' : x.newOrderId.2.Fresh := hx.quiet (newOrderId_quiet x)
  have hw : Wanes x x.newOrderId.2 := (newOrderId_quiet x).wanes hx
  exact hw.trans (h.filled.wanes hx' (Nat.lt_succ_self _) (hx.home_eq_none le_rfl))

theorem Submitted.nextOrderId (h : Submitted x x' a side limit q r left) :
    x'.nextOrderId = x.nextOrderId + 1 := h.filled.nextOrderId

theorem Submitted.home_self (h : Submitted x x' a side limit q r left) :
    x'.home x.nextOrderId = some a := by
  simp [h.filled.home]

/-- Restoring orders with issued ids changes neither executions nor where orders were placed. -/
theorem Restored.ages {snapshot : OrderBookSnapshot} (h : Restored x x' a snapshot)
    (hx : x.Fresh) (hi : ∀ o ∈ snapshot.orders, o.id < x.nextOrderId) : Ages x x' where
  fresh := by
    refine ⟨fun {c j o} ho => ?_, fun {j c} hc => ?_, fun e he => ?_⟩
    · rw [h.nextOrderId]
      rw [h.getOrder] at ho
      split_ifs at ho
      · have hid : o.id = j := by simpa using List.find?_some ho
        exact hid ▸ hi o (List.mem_of_find?_eq_some ho)
      · exact hx.resting ho
    · rw [h.nextOrderId]
      rw [h.home] at hc
      exact hx.home hc
    · rw [h.nextOrderId]
      rw [h.tape] at he
      exact hx.taped e he
  next := h.nextOrderId.ge
  home hc := by rwa [h.home]
  executed j := by
    simp only [Exchange.executed, h.tape]
    exact le_rfl

theorem cancelOrder_wanes [LawfulUpstream B] (hx : x.Fresh) (a : OptionAddr) (i : OrderId) :
    Wanes x (x.cancelOrder a i).2 := by
  cases h : x.cancelOrder a i with
  | mk res x' =>
    by_cases hres : res = .ok true
    · subst hres
      exact (cancel_true h).shrunk.wanes hx
    · exact (cancel_quiet h hres).wanes hx

end Aging
end Exchange
end OptionChainBackend
