import OptionChainBackend.MarketMaker.Calls

/-!
The tracked quantities counted against the books. Whatever an engine order meets, its tracked
quantity covers no more than what rests of it and what executed of it unreported. Nothing stays
unreported as long as the quotes of the engine meet nobody when they are placed.
-/
namespace OptionChainBackend

namespace Exchange
variable {B : Type} [Upstream B] {x x' x'' : Exchange B} {a : OptionAddr} {i : OrderId}
  {r : RestingOrder}

theorem Shrunk.refl (x : Exchange B) : Shrunk x x := ⟨fun _ _ => .inl rfl, rfl, rfl, rfl⟩

theorem Shrunk.rested (h : Shrunk x x') (hr : x'.getOrder a i = some r) :
    x.getOrder a i = some r := by
  rcases h.getOrder a i with he | he
  · exact he.symm.trans hr
  · rw [he] at hr
    cases hr

theorem Shrunk.trans (h : Shrunk x x') (h' : Shrunk x' x'') : Shrunk x x'' where
  getOrder a i := by
    rcases h'.getOrder a i with he | he
    · rw [he]
      exact h.getOrder a i
    · exact .inr he
  tape := h'.tape.trans h.tape
  home := h'.home.trans h.home
  nextOrderId := h'.nextOrderId.trans h.nextOrderId

theorem cancelOrder_shrunk [LawfulUpstream B] (x : Exchange B) (a : OptionAddr) (i : OrderId) :
    Shrunk x (x.cancelOrder a i).2 := by
  rcases x.cancelOrder_cases a i with h | h
  · exact h.shrunk
  · exact ⟨fun c j => .inl (h.getOrder c j), h.tape, h.home, rfl⟩

theorem cancelOrder_remaining_ne [LawfulUpstream B] (x : Exchange B) (a : OptionAddr)
    {i j : OrderId} (hj : j ≠ i) : (x.cancelOrder a i).2.remaining j = x.remaining j := by
  rcases x.cancelOrder_cases a i with h | h
  · exact h.remaining_ne hj
  · exact h.remaining j

end Exchange

namespace MarketMaker
open Foundation Upstream Exchange

namespace Desk
variable {B F : Type} [Upstream B] {d d' d'' : Desk B F} {reported : OrderId → ℕ}
  {x : Exchange B} {a : OptionAddr} {i id : OrderId} {o : ActiveOrderInfo} {side : Side}
  {limit : Option ℕ} {q price : ℕ} {r : MatchResult} {left : Option RestingOrder}

structure Covered (d : Desk B F) (reported : OrderId → ℕ) : Prop where
  covered : ∀ {i o}, d.engine.activeOrders.lookup i = some o →
    o.quantity + reported i ≤ d.market.remaining i + d.market.executed i
  positive : ∀ {i o}, d.engine.activeOrders.lookup i = some o → 0 < o.quantity
  lasting : ∀ {a i r}, i ∈ d.quoted → d.market.getOrder a i = some r → r.timeInForce = .gtc

namespace Covered

/-- A change of the books that loses nothing of a tracked order. -/
theorem market (h : d.Covered reported)
    (hsum : ∀ {i o}, d.engine.activeOrders.lookup i = some o →
      d.market.remaining i + d.market.executed i ≤ x.remaining i + x.executed i)
    (hrest : ∀ {a i r}, i ∈ d.quoted → x.getOrder a i = some r →
      ∃ r', d.market.getOrder a i = some r' ∧ r'.timeInForce = r.timeInForce) :
    Covered { d with market := x } reported where
  covered ho := (h.covered ho).trans (hsum ho)
  positive ho := h.positive ho
  lasting hi hr := by
    obtain ⟨r', hr', ht⟩ := hrest hi hr
    rw [← ht]
    exact h.lasting hi hr'

theorem quiet (h : d.Covered reported) (hq : Quiet d.market x) :
    Covered { d with market := x } reported := by
  apply h.market
  · intro i o _
    rw [hq.remaining, hq.executed]
  · intro a i r _ hr
    rw [hq.getOrder] at hr
    exact ⟨r, hr, rfl⟩

/-- An order nobody tracks leaves its book. -/
theorem removed (h : d.Covered reported) (hr : Removed d.market x a id)
    (hid : d.engine.activeOrders.lookup id = none) :
    Covered { d with market := x } reported := by
  apply h.market
  · intro i o ho
    have hne : i ≠ id := by
      rintro rfl
      rw [hid] at ho
      cases ho
    rw [hr.remaining_ne hne, hr.shrunk.executed]
  · intro c i r _ hrest
    rw [hr.getOrder] at hrest
    split_ifs at hrest
    exact ⟨r, hrest, rfl⟩

/-- A submission by someone else. -/
theorem filled (h : d.Covered reported) (hs : d.Sound reported) (hnew : id ∉ d.quoted)
    (hf : Filled d.market x a id side limit q r left) :
    Covered { d with market := x } reported := by
  apply h.market
  · intro i o ho
    have hi := (hs.known ho).1
    have hne : i ≠ id := fun he => hnew (he ▸ hi)
    have hrem := hf.remaining_ne (hs.homed i hi) hne
    have hexec := hf.executed_ne hne
    omega
  · intro c i rest hi hrest
    have hne : i ≠ id := fun he => hnew (he ▸ hi)
    rw [hf.getOrder] at hrest
    split_ifs at hrest with hc
    · obtain ⟨rest', hget, hred⟩ := Option.bind_eq_some_iff.mp hrest
      obtain ⟨-, rfl⟩ := RestingOrder.reduce_some hred
      exact ⟨rest', hc ▸ hget, rfl⟩
    · exact ⟨rest, hrest, rfl⟩

/-- Changes of the engine that track nothing new. -/
theorem thin (h : d.Covered reported) {e : MarketMakerEngine F}
    (hsub : ∀ {i o}, e.activeOrders.lookup i = some o → d.engine.activeOrders.lookup i = some o) :
    Covered { d with engine := e } reported where
  covered ho := h.covered (hsub ho)
  positive ho := h.positive (hsub ho)
  lasting := h.lasting

/-- The engine's own submission: what executes on arrival and what rests add up to its size. -/
theorem place (h : d.Covered reported) (hs : d.Sound reported) (hnew : id ∉ d.quoted)
    (habs : ∀ c, d.market.getOrder c id = none) (hzero : d.market.executed id = 0)
    (hpos : 0 < o.quantity)
    (hf : Filled d.market x o.addr id side (some price) o.quantity r
      (rested id side price .gtc r)) :
    Covered ⟨x, d.engine.track id o, id :: d.quoted⟩ reported := by
  have hbefore := h.filled hs hnew hf
  have hlookup : ∀ j, (d.engine.track id o).activeOrders.lookup j =
      if j = id then some o else d.engine.activeOrders.lookup j := fun j => by
    simp [MarketMakerEngine.track]
  constructor
  · intro i o' ho
    rw [hlookup] at ho
    split_ifs at ho with hi
    · obtain rfl := Option.some.inj ho
      have hrep := hs.reported_le id
      have hrem := hf.remaining_self
      rw [rested_quantity (.inl rfl)] at hrem
      have hexec := hf.executed_self
      have hcons := hf.matched.conserves
      subst hi
      show o.quantity + reported i ≤ x.remaining i + x.executed i
      omega
    · exact hbefore.covered ho
  · intro i o' ho
    rw [hlookup] at ho
    split_ifs at ho
    · exact Option.some.inj ho ▸ hpos
    · exact h.positive ho
  · intro c i rest hi hrest
    rcases List.mem_cons.mp hi with rfl | hi
    · change x.getOrder c i = some rest at hrest
      rw [hf.getOrder] at hrest
      by_cases hc : c = o.addr
      · rw [if_pos hc, if_pos rfl] at hrest
        unfold rested at hrest
        split_ifs at hrest
        rw [← Option.some.inj hrest]
      · rw [if_neg hc, habs c] at hrest
        cases hrest
    · exact hbefore.lasting hi hrest

/-- A report takes from the tracked quantity what it adds to the reported one. -/
theorem onOrderFilled (h : d.Covered reported) (i : OrderId) (price q : ℕ) :
    (d.onOrderFilled i price q).Covered (Function.update reported i (reported i + q)) := by
  have hrep : ∀ j, Function.update reported i (reported i + q) j =
      if j = i then reported i + q else reported j := fun j => Function.update_apply _ _ _ _
  unfold Desk.onOrderFilled
  rcases d.engine.onOrderFilled_cases (showOrderId B) i price q with
    ⟨hidle, he⟩ | ⟨o, events, -, ho, he⟩
  · rw [he]
    rcases hidle with rfl | ho
    · simp only [Nat.add_zero, Function.update_eq_self]
      exact h
    · constructor
      · intro j o hj
        have hne : j ≠ i := by
          rintro rfl
          rw [ho] at hj
          cases hj
        rw [hrep, if_neg hne]
        exact h.covered hj
      · exact h.positive
      · exact h.lasting
  · rw [he]
    have hkept : Covered { d with engine := d.engine.takeFill i o q }
        (Function.update reported i (reported i + q)) := by
      have hlookup : ∀ j o', (d.engine.takeFill i o q).activeOrders.lookup j = some o' →
          j ≠ i ∧ d.engine.activeOrders.lookup j = some o' ∨
          j = i ∧ q < o.quantity ∧ o' = { o with quantity := o.quantity - q } := by
        intro j o' hj
        rw [MarketMakerEngine.lookup_takeFill] at hj
        split_ifs at hj with he hfull
        · exact .inr ⟨he, Nat.not_le.mp hfull, (Option.some.inj hj).symm⟩
        · exact .inl ⟨he, hj⟩
      constructor
      · intro j o' hj
        rw [hrep]
        rcases hlookup j o' hj with ⟨hne, hold⟩ | ⟨rfl, hlt, rfl⟩
        · rw [if_neg hne]
          exact h.covered hold
        · have hcov := h.covered ho
          rw [if_pos rfl]
          show o.quantity - q + (reported j + q) ≤ d.market.remaining j + d.market.executed j
          omega
      · intro j o' hj
        rcases hlookup j o' hj with ⟨-, hold⟩ | ⟨-, hlt, rfl⟩
        · exact h.positive hold
        · show 0 < o.quantity - q
          omega
      · exact h.lasting
    exact hkept.thin fun hj => hj

variable [LawfulUpstream B]

/-- A cancel of an order that is not tracked any more. -/
theorem cancelOnBook (h : d.Covered reported) (a : OptionAddr)
    (hi : d.engine.activeOrders.lookup i = none) : (d.cancelOnBook a i).Covered reported := by
  rcases d.market.cancelOrder_cases a i with hr | hq
  · exact h.removed hr hi
  · exact h.quiet hq

theorem cancelOrder (h : d.Covered reported) (i : OrderId) :
    (d.cancelOrder i).Covered reported := by
  unfold Desk.cancelOrder
  cases hi : d.engine.activeOrders.lookup i with
  | none => exact h
  | some o =>
    have hlookup : ∀ j, ((d.engine.untrack i).clearInstrumentSlot (.fromOrder o) o.isBuy
        ).activeOrders.lookup j = if j = i then none else d.engine.activeOrders.lookup j :=
      fun j => d.engine.forget_lookup i j _ _
    have hthin : Covered { d with
        engine := (d.engine.untrack i).clearInstrumentSlot (.fromOrder o) o.isBuy } reported := by
      apply h.thin
      intro j o' hj
      rw [hlookup] at hj
      split_ifs at hj
      exact hj
    dsimp only
    split_ifs
    · apply hthin.cancelOnBook
      rw [hlookup, if_pos rfl]
    · exact hthin

end Covered

section Still

/-- Nothing executed, and what rests of other people's orders rested before. -/
structure Still (d d' : Desk B F) : Prop where
  tape : d'.market.tape = d.market.tape
  now : d'.market.now = d.market.now
  others : ∀ {a i r}, d'.market.getOrder a i = some r → i ∉ d'.quoted →
    d.market.getOrder a i = some r ∧ i ∉ d.quoted

theorem Still.refl (d : Desk B F) : Still d d := ⟨rfl, rfl, fun hr hi => ⟨hr, hi⟩⟩

theorem Still.trans (h : Still d d') (h' : Still d' d'') : Still d d'' where
  tape := h'.tape.trans h.tape
  now := h'.now.trans h.now
  others hr hi := by
    obtain ⟨hr', hi'⟩ := h'.others hr hi
    exact h.others hr' hi'

theorem Still.executed (h : Still d d') (i : OrderId) :
    d'.market.executed i = d.market.executed i := by
  simp only [Exchange.executed, h.tape]

theorem Shrunk.still (h : Shrunk d.market d'.market) (hnow : d'.market.now = d.market.now)
    (hq : d'.quoted = d.quoted) : Still d d' where
  tape := h.tape
  now := hnow
  others hr hi := ⟨h.rested hr, hq ▸ hi⟩

variable [LawfulUpstream B]

/-- A row of cancels on one book moves only the orders it names. -/
theorem foldl_cancelOnBook_shrunk (d : Desk B F) (a : OptionAddr) (ids : List OrderId) :
    let d' := ids.foldl (fun d id => d.cancelOnBook a id) d
    Shrunk d.market d'.market ∧ d'.engine = d.engine ∧ d'.quoted = d.quoted ∧
      d'.market.now = d.market.now ∧ ∀ i, i ∉ ids → d'.market.remaining i = d.market.remaining i := by
  induction ids generalizing d with
  | nil => exact ⟨.refl _, rfl, rfl, rfl, fun _ _ => rfl⟩
  | cons id ids ih =>
    obtain ⟨hs, he, hq, hn, hr⟩ := ih (d.cancelOnBook a id)
    refine ⟨(d.market.cancelOrder_shrunk a id).trans hs, he, hq, hn, fun i hi => ?_⟩
    rw [List.mem_cons, not_or] at hi
    obtain ⟨hne, hrest⟩ := hi
    calc _ = (d.cancelOnBook a id).market.remaining i := hr i hrest
      _ = d.market.remaining i := d.market.cancelOrder_remaining_ne a hne

theorem dropStale_still (d : Desk B F) (a : OptionAddr) (stale : Slots) :
    Still d (d.dropStale a stale) := by
  obtain ⟨hs, -, hq, hn, -⟩ := d.foldl_cancelOnBook_shrunk a stale.ids
  unfold Desk.dropStale
  split_ifs
  · exact .refl d
  · exact Shrunk.still hs hn hq

theorem Covered.dropStale (h : d.Covered reported) (a : OptionAddr) (stale : Slots) :
    (d.dropStale a stale).Covered reported := by
  obtain ⟨hs, he, hq, -, hr⟩ := d.foldl_cancelOnBook_shrunk a stale.ids
  unfold Desk.dropStale
  split_ifs
  · exact h
  dsimp only
  rw [he]
  have hlookup : ∀ {j o}, ((stale.ids.foldl MarketMakerEngine.untrack d.engine).removeEntry
      (.new a)).activeOrders.lookup j = some o →
      j ∉ stale.ids ∧ d.engine.activeOrders.lookup j = some o := by
    intro j o hj
    change (stale.ids.foldl MarketMakerEngine.untrack d.engine).activeOrders.lookup j = some o at hj
    rw [MarketMakerEngine.foldl_untrack_lookup] at hj
    split_ifs at hj with hmem
    exact ⟨hmem, hj⟩
  constructor
  · intro i o hi
    obtain ⟨hmem, hold⟩ := hlookup hi
    have hcov := h.covered hold
    have hrem := hr i hmem
    have hexec := hs.executed i
    dsimp only
    omega
  · intro i o hi
    exact h.positive (hlookup hi).2
  · intro c i rest hi hrest
    exact h.lasting (hq ▸ hi) (hs.rested hrest)

/-- A leg that crosses nothing on its book executes nothing. -/
theorem placeLeg_still (hs : d.Sound reported) (price : ℕ) (o : ActiveOrderInfo)
    (hfree : ∀ i r, d.market.getOrder o.addr i = some r →
      r.side = (if o.isBuy then Side.buy else Side.sell).opposite →
      ¬ Crosses (if o.isBuy then .buy else .sell) (some price) r.price) :
    Still d (d.placeLeg o.addr price o).2 ∧
      ∀ i r, (d.placeLeg o.addr price o).2.market.getOrder o.addr i = some r →
        d.market.getOrder o.addr i = some r ∨ r.price = price := by
  rcases d.placeLeg_answer price o (hs.fresh.absent le_rfl) with
    ⟨x, he, hq, -, hn⟩ | ⟨x, r, he, hf, -, hn⟩
  · rw [he]
    constructor
    · exact ⟨hq.tape, hn, fun hr hi => ⟨(hq.getOrder _ _).symm.trans hr, hi⟩⟩
    · intro i r hr
      exact .inl ((hq.getOrder _ _).symm.trans hr)
  · have hnone : r.trades = [] := hf.matched.trades_eq_nil hfree
    have hkept : ∀ {c i rest}, i ≠ d.market.nextOrderId → x.getOrder c i = some rest →
        d.market.getOrder c i = some rest := by
      intro c i rest hi hrest
      rw [hf.getOrder, hnone] at hrest
      split_ifs at hrest with hc
      · obtain ⟨rest', hget, hred⟩ := Option.bind_eq_some_iff.mp hrest
        rw [makerFilled_nil, RestingOrder.reduce_zero (LawfulUpstream.getOrder_pos _ _ _ hget)] at hred
        rw [hc, ← Option.some.inj hred]
        exact hget
      · exact hrest
    rw [he]
    constructor
    · constructor
      · show x.tape = d.market.tape
        rw [hf.tape, hnone, List.map_nil, List.append_nil]
        rfl
      · exact hn
      · intro c i rest hrest hi
        obtain ⟨hne, hold⟩ := not_or.mp (List.mem_cons.not.mp hi)
        exact ⟨hkept hne hrest, hold⟩
    · intro i rest hrest
      by_cases hi : i = d.market.nextOrderId
      · right
        change x.getOrder o.addr i = some rest at hrest
        rw [hf.getOrder, if_pos rfl, if_pos hi] at hrest
        unfold rested at hrest
        split_ifs at hrest <;> rw [← Option.some.inj hrest]
      · exact .inl (hkept hi hrest)

theorem Covered.placeLeg (h : d.Covered reported) (hs : d.Sound reported) (price : ℕ)
    (hpos : 0 < o.quantity) : (d.placeLeg o.addr price o).2.Covered reported := by
  rcases d.placeLeg_answer price o (hs.fresh.absent le_rfl) with
    ⟨x, he, hq, -, -⟩ | ⟨x, r, he, hf, -, -⟩
  · rw [he]
    exact h.quiet hq
  · rw [he]
    have hnew : Covered { d with market := d.market.newOrderId.2 } reported :=
      h.quiet (newOrderId_quiet _)
    apply hnew.place hs.newOrderId hs.unissued _ _ hpos hf
    · intro c
      exact hs.fresh.absent le_rfl
    · exact hs.fresh.executed_eq_zero le_rfl

end Still
section Requotes

/-- Neither leg of the quote crosses the resting order. -/
def Clears (q : QuoteParams) (r : RestingOrder) : Prop :=
  match r.side with
  | .sell => q.bidPrice < r.price
  | .buy => r.price < q.askPrice

/-- The legs of the quote cross neither each other nor an order of someone else. -/
def Room (d : Desk B F) (a : OptionAddr) (q : QuoteParams) : Prop :=
  q.bidPrice < q.askPrice ∧ ∀ r ∈ orders (d.market.books a), r.id ∈ d.quoted ∨ Clears q r

instance (q : QuoteParams) (r : RestingOrder) : Decidable (Clears q r) := by
  unfold Clears
  split <;> infer_instance

instance (d : Desk B F) (a : OptionAddr) (q : QuoteParams) : Decidable (d.Room a q) :=
  inferInstanceAs (Decidable (_ ∧ _))

theorem Room.clears [LawfulUpstream B] {q : QuoteParams} (h : d.Room a q) {r : RestingOrder}
    (hr : d.market.getOrder a i = some r) (hi : i ∉ d.quoted) : Clears q r := by
  have hid : r.id = i := LawfulUpstream.getOrder_id _ _ _ hr
  have hmem : r ∈ orders (d.market.books a) :=
    (LawfulUpstream.mem_orders _ _).mpr (by rw [hid]; exact hr)
  rcases h.2 r hmem with hq | hc
  · exact absurd (hid ▸ hq) hi
  · exact hc

theorem Room.still [LawfulUpstream B] {q : QuoteParams} (h : d.Room a q) (hs : Still d d') :
    d'.Room a q := by
  constructor
  · exact h.1
  · intro r hr
    by_cases hi : r.id ∈ d'.quoted
    · exact .inl hi
    · obtain ⟨hget, hold⟩ := hs.others ((LawfulUpstream.mem_orders _ _).mp hr) hi
      exact .inr (h.clears hget hold)

/-- With the legs of an instrument dropped, no order of the engine rests on its book. -/
theorem Midway.vacant [LawfulUpstream B] (h : Midway d d' a Slots.none reported)
    {r : RestingOrder} (hr : d'.market.getOrder a i = some r) : i ∉ d'.quoted := by
  intro hi
  have hpos := LawfulUpstream.getOrder_pos _ _ _ hr
  have hhome := h.sound.homed i hi
  have htracked := h.sound.tracked i hi (by rwa [hhome.remaining_eq hr])
  obtain ⟨info, hinfo⟩ := Option.isSome_iff_exists.mp htracked
  have haddr : info.addr = a :=
    Option.some.inj ((h.sound.known hinfo).2.1.symm.trans (hhome hr))
  have hslot := (h.placing.agrees (position info) i).mpr ⟨info, hinfo, rfl⟩
  have hkey : (position info).1 = InstrumentKey.new a := by
    rw [← haddr]
    rfl
  dsimp only at hslot
  rw [if_pos hkey] at hslot
  cases hslot

variable [LawfulUpstream B]

theorem replaceQuotes_still (h : d.Tidy reported) (hc : CancelRemoves B)
    (ctx : RequoteContext F) (strike : ℕ) (style : OptionStyle) (q : QuoteParams)
    (hb : d.market.hasBook ⟨ctx.symbol, ctx.expiration, strike, style⟩ = true)
    (hroom : d.Room ⟨ctx.symbol, ctx.expiration, strike, style⟩ q) :
    Still d (d.replaceQuotes ctx strike style q) := by
  let a : OptionAddr := ⟨ctx.symbol, ctx.expiration, strike, style⟩
  let bidInfo := legInfo ctx strike style q true
  let askInfo := legInfo ctx strike style q false
  let d1 := d.dropStale a (d.engine.slots (.new a))
  let d2 := (d1.placeLeg a q.bidPrice bidInfo).2
  have hdrop : Midway d d1 a Slots.none reported := h.dropStale hc a
  have hbid := hdrop.placeLeg q.bidPrice (o := bidInfo) rfl hb rfl
  have hstill : Still d d1 := d.dropStale_still a _
  have hclears : ∀ {i r}, d1.market.getOrder a i = some r → Clears q r := fun hr =>
    (hroom.still hstill).clears hr (hdrop.vacant hr)
  obtain ⟨hstill1, hrests⟩ : Still d1 d2 ∧ ∀ i r, d2.market.getOrder a i = some r →
      d1.market.getOrder a i = some r ∨ r.price = q.bidPrice := by
    apply placeLeg_still hdrop.sound q.bidPrice bidInfo
    intro i r hr hside
    have hclear := hclears hr
    unfold Clears at hclear
    rw [hside] at hclear
    exact Nat.not_le.mpr hclear
  obtain ⟨hstill2, -⟩ := placeLeg_still hbid.sound q.askPrice askInfo (by
    intro i r hr hside
    have hprice : r.price < q.askPrice := by
      rcases hrests i r hr with hold | hnew
      · have hclear := hclears hold
        unfold Clears at hclear
        rw [hside] at hclear
        exact hclear
      · rw [hnew]
        exact hroom.1
    exact Nat.not_le.mpr hprice)
  have hall := (hstill.trans hstill1).trans hstill2
  exact ⟨hall.tape, hall.now, hall.others⟩

theorem Covered.replaceQuotes (h : d.Covered reported) (ht : d.Tidy reported)
    (hc : CancelRemoves B) (ctx : RequoteContext F) (strike : ℕ) (style : OptionStyle)
    (q : QuoteParams) (hbid : 0 < q.bidSize) (hask : 0 < q.askSize)
    (hb : d.market.hasBook ⟨ctx.symbol, ctx.expiration, strike, style⟩ = true) :
    (d.replaceQuotes ctx strike style q).Covered reported := by
  let a : OptionAddr := ⟨ctx.symbol, ctx.expiration, strike, style⟩
  let bidInfo := legInfo ctx strike style q true
  let askInfo := legInfo ctx strike style q false
  have hdrop := ht.dropStale hc a
  have hplaced := hdrop.placeLeg q.bidPrice (o := bidInfo) rfl hb rfl
  have hstale := h.dropStale a (d.engine.slots (.new a))
  have hfirst := hstale.placeLeg (o := bidInfo) hdrop.sound q.bidPrice hbid
  have hboth := hfirst.placeLeg (o := askInfo) hplaced.sound q.askPrice hask
  unfold Desk.replaceQuotes
  apply hboth.thin
  intro i o ho
  unfold MarketMakerEngine.recordLegs at ho
  split_ifs at ho <;> exact ho

variable [F64 F]

/-- If the instrument is requoted now, there is room for its quote. -/
def UpdateClears (d : Desk B F) (ctx : RequoteContext F) (strike : ℕ) (style : OptionStyle) :
    Prop :=
  ∀ q ∈ d.engine.quoter.generateQuote d.market.now (quoteInput ctx strike style),
    d.market.hasBook ⟨ctx.symbol, ctx.expiration, strike, style⟩ = true →
      d.Room ⟨ctx.symbol, ctx.expiration, strike, style⟩ q

def SymbolClears (d : Desk B F) (symbol : String) : Prop :=
  ∀ spotCents ∈ d.engine.getPrice symbol, ∀ i ∈ d.instruments symbol,
    d.UpdateClears (d.requoteContext symbol spotCents i.1) i.2.1 i.2.2

instance (d : Desk B F) (ctx : RequoteContext F) (strike : ℕ) (style : OptionStyle) :
    Decidable (d.UpdateClears ctx strike style) :=
  inferInstanceAs (Decidable (∀ q ∈ d.engine.quoter.generateQuote d.market.now _, _ → _))

instance (d : Desk B F) (symbol : String) : Decidable (d.SymbolClears symbol) :=
  inferInstanceAs (Decidable (∀ spotCents ∈ d.engine.getPrice symbol, ∀ i ∈ d.instruments symbol,
    d.UpdateClears (d.requoteContext symbol spotCents i.1) i.2.1 i.2.2))

def AllClear (d : Desk B F) : Prop :=
  ∀ symbol ∈ d.market.underlyings, d.engine.isSymbolEnabled symbol = true →
    d.SymbolClears symbol

/-- A requote of part of the books: what it keeps, and that it stands still where there is
room. -/
structure Requoting (d d' : Desk B F) (reported : OrderId → ℕ) (clear : Prop) : Prop
    extends Kept d d' reported where
  covered : d'.Covered reported
  still : clear → Still d d'

omit [LawfulUpstream B] [F64 F] in
theorem Kept.quoter (h : Kept d d' reported) : d'.engine.quoter = d.engine.quoter :=
  congrArg Prod.fst h.settings

omit [LawfulUpstream B] [F64 F] in
theorem Kept.config (h : Kept d d' reported) : d'.engine.config = d.engine.config :=
  congrArg (·.2.1) h.settings

omit [LawfulUpstream B] [F64 F] in
theorem Kept.prices (h : Kept d d' reported) : d'.engine.prices = d.engine.prices :=
  congrArg (·.2.2) h.settings

theorem UpdateClears.still {ctx : RequoteContext F} {strike : ℕ} {style : OptionStyle}
    (h : d.UpdateClears ctx strike style) (hk : Kept d d' reported) (hs : Still d d') :
    d'.UpdateClears ctx strike style := by
  intro q hq hb
  rw [hk.quoter, hs.now] at hq
  rw [hk.catalog] at hb
  exact (h q hq hb).still hs

theorem SymbolClears.still {symbol : String} (h : d.SymbolClears symbol)
    (hk : Kept d d' reported) (hs : Still d d') : d'.SymbolClears symbol := by
  intro spotCents hspot i hi
  have hprice : d'.engine.getPrice symbol = d.engine.getPrice symbol := by
    unfold MarketMakerEngine.getPrice
    rw [hk.prices]
  have hinst : d'.instruments symbol = d.instruments symbol := by
    unfold instruments
    rw [hk.catalog]
  have hctx : d'.requoteContext symbol spotCents i.1 = d.requoteContext symbol spotCents i.1 := by
    unfold requoteContext
    rw [hk.config, hs.now]
  rw [hprice] at hspot
  rw [hinst] at hi
  rw [hctx]
  exact (h spotCents hspot i hi).still hk hs

omit [LawfulUpstream B] [F64 F] in
theorem Requoting.refl (ht : d.Tidy reported) (h : d.Covered reported) (clear : Prop) :
    Requoting d d reported clear := ⟨⟨ht, rfl, rfl⟩, h, fun _ => .refl d⟩

omit [LawfulUpstream B] [F64 F] in
/-- One more part requoted. -/
theorem Requoting.trans {clear clear' : Prop} (h : Requoting d d' reported clear)
    (h' : Requoting d' d'' reported clear') (hclear : clear → Still d d' → clear') :
    Requoting d d'' reported clear where
  tidy := h'.tidy
  catalog := h'.catalog.trans h.catalog
  settings := h'.settings.trans h.settings
  covered := h'.covered
  still hok := (h.still hok).trans (h'.still (hclear hok (h.still hok)))

theorem updateQuote_requoting (ht : d.Tidy reported) (h : d.Covered reported)
    (hc : CancelRemoves B) (ctx : RequoteContext F) (strike : ℕ) (style : OptionStyle) :
    Requoting d (d.updateQuote ctx strike style) reported (d.UpdateClears ctx strike style) := by
  unfold UpdateClears Desk.updateQuote
  cases hq : d.engine.quoter.generateQuote d.market.now (quoteInput ctx strike style) with
  | none => exact .refl ht h _
  | some q =>
    dsimp only
    split_ifs with hb
    · obtain ⟨hbid, hask, -⟩ := generateQuote_pos hq
      have hr := ht.replaceQuotes hc ctx strike style q hb
      constructor
      · exact ⟨hr.tidy, hr.catalog, hr.settings⟩
      · exact h.replaceQuotes ht hc ctx strike style q hbid hask hb
      · intro hclear
        exact replaceQuotes_still ht hc ctx strike style q hb (hclear q rfl hb)
    · exact .refl ht h _

theorem requoteSymbol_requoting (ht : d.Tidy reported) (h : d.Covered reported)
    (hc : CancelRemoves B) (symbol : String) :
    Requoting d (d.requoteSymbol symbol) reported (d.SymbolClears symbol) := by
  unfold Desk.requoteSymbol
  cases hp : d.engine.getPrice symbol with
  | none => exact .refl ht h _
  | some spotCents =>
    dsimp only
    split_ifs
    · apply List.foldlRecOn (motive := fun d' => Requoting d d' reported (d.SymbolClears symbol))
      · exact .refl ht h _
      · intro d' hd i hi
        apply hd.trans (updateQuote_requoting hd.tidy hd.covered hc _ _ _)
        intro hclear hs
        exact (hclear spotCents hp i hi).still hd.toKept hs
    · exact .refl ht h _

theorem requoteAll_requoting (ht : d.Tidy reported) (h : d.Covered reported)
    (hc : CancelRemoves B) : Requoting d d.requoteAll reported d.AllClear := by
  unfold Desk.requoteAll
  apply List.foldlRecOn (motive := fun d' => Requoting d d' reported d.AllClear)
  · exact .refl ht h _
  · intro d' hd symbol hmem
    split_ifs with hon
    · apply hd.trans (requoteSymbol_requoting hd.tidy hd.covered hc symbol)
      intro hclear hs
      apply (hclear symbol hmem _).still hd.toKept hs
      unfold MarketMakerEngine.isSymbolEnabled at hon ⊢
      rwa [hd.config] at hon
    · exact hd

end Requotes
end Desk
end MarketMaker
end OptionChainBackend
