import OptionChainBackend.Api.Segments

/-!
The single and the bulk submit path side by side: what a bulk item does, and what the same order
does through `add_order`.
-/
namespace OptionChainBackend
open Foundation Upstream MarketMaker Exchange

namespace BulkOrderItem

/-- The path and the body of the same order, good till cancelled, for `add_order`. -/
def path (item : BulkOrderItem) : OptionPath :=
  ⟨item.underlying, item.expiration, item.strike, Desk.styleName item.style⟩

def body (item : BulkOrderItem) : AddOrderRequest :=
  ⟨item.side, item.price, item.quantity, some .gtc, none⟩

/-- The book of the item when its segment is parsed to `e`. -/
def addr (item : BulkOrderItem) (e : ExpirationDate) : OptionAddr :=
  ⟨item.underlying, e, item.strike, item.style⟩

end BulkOrderItem

namespace Exchange
variable {B : Type} [Upstream B] {x x' : Exchange B} {a a' : OptionAddr} {item : BulkOrderItem}

omit [Upstream B] in
theorem getOrCreate_of_hasBook (h : x.hasBook a = true) : x.getOrCreate a.underlying = x := by
  simp only [Catalog.hasBook, Bool.and_eq_true] at h
  simp [getOrCreate, h.1.1]

/-- What the book on `a` answers to the order of the item. -/
def answer (x : Exchange B) (a : OptionAddr) (item : BulkOrderItem) :
    Except String MatchResult × Exchange B :=
  x.newOrderId.2.addLimitOrderFull a x.nextOrderId item.side item.price item.quantity

def TakesOn (x : Exchange B) (a : OptionAddr) (item : BulkOrderItem) : Prop :=
  ∃ r, (x.answer a item).1 = .ok r

/-- `find_expiration_by_str` leads the item to `a`. -/
def Leads (x : Exchange B) (item : BulkOrderItem) (a : OptionAddr) : Prop :=
  x.locate item.underlying item.expiration item.strike item.style = .ok a

theorem Leads.unique (h : x.Leads item a) (h' : x.Leads item a') : a = a' :=
  Except.ok.inj (h.symm.trans h')

theorem answer_accepted [LawfulUpstream B] (hf : x.Fresh) {r : MatchResult}
    (h : (x.answer a item).1 = .ok r) :
    Submitted x (x.answer a item).2 a item.side (some item.price) item.quantity r
      (rested x.nextOrderId item.side item.price .gtc r) := by
  rcases addLimit_cases hf a item.side item.price item.quantity .gtc with
    ⟨e, x', he, -⟩ | ⟨r', x', he, hs, -⟩
  · rw [answer, addLimitOrderFull, he] at h
    cases h
  · rw [answer, addLimitOrderFull, he] at h ⊢
    rw [← Except.ok.inj h]
    exact hs

theorem answer_refused [LawfulUpstream B] (hf : x.Fresh) (h : ¬ x.TakesOn a item) :
    ∃ e, (x.answer a item).1 = .error e ∧ Idle x (x.answer a item).2 := by
  rcases addLimit_cases hf a item.side item.price item.quantity .gtc with
    ⟨e, x', he, hi⟩ | ⟨r', x', he, -, -⟩
  · rw [answer, addLimitOrderFull, he]
    exact ⟨e, rfl, hi⟩
  · exact absurd ⟨r', by rw [answer, addLimitOrderFull, he]⟩ h

/-- An order of some quantity leaves a mark on its book: it rests, or a maker lost quantity. -/
theorem Submitted.changes {side : Side} {limit : Option ℕ} {price q : ℕ} {r : MatchResult}
    (h : Submitted x x' a side limit q r (rested x.nextOrderId side price .gtc r)) (hq : 0 < q) :
    ∃ i, x'.getOrder a i ≠ x.getOrder a i := by
  have hget : ∀ j, x'.getOrder a j = if j = x.nextOrderId then
      rested x.nextOrderId side price .gtc r else
        (x.getOrder a j).bind (·.reduce (makerFilled r.trades j)) := by
    intro j
    rw [h.filled.getOrder, if_pos rfl]
    rfl
  by_cases hr : 0 < r.remainingQuantity
  · refine ⟨x.nextOrderId, ?_⟩
    have habs : x.getOrder a x.nextOrderId = none := h.filled.absent
    rw [hget, if_pos rfl, habs, rested, if_pos ⟨rfl, hr⟩]
    exact Option.some_ne_none _
  · have hexec : 0 < r.executedQuantity := by
      have := h.filled.matched.conserves
      omega
    obtain ⟨t, ht⟩ : ∃ t, t ∈ r.trades := by
      apply List.exists_mem_of_ne_nil
      rintro hnil
      simp [MatchResult.executedQuantity, hnil] at hexec
    obtain ⟨o, ho, -⟩ := h.filled.matched.makers t ht
    have ho' : x.getOrder a t.makerOrderId = some o := ho
    have hfilled : 0 < makerFilled r.trades t.makerOrderId := by
      refine (h.filled.matched.positive t ht).trans_le ?_
      apply List.single_le_sum (by simp)
      exact List.mem_map.mpr ⟨t, List.mem_filter.mpr ⟨ht, by simp⟩, rfl⟩
    refine ⟨t.makerOrderId, ?_⟩
    rw [hget, if_neg (h.filled.maker_ne ht), ho', Option.bind_some, RestingOrder.reduce]
    split_ifs
    · exact (Option.some_ne_none o).symm
    · intro heq
      have hsame := congrArg RestingOrder.visibleQuantity (Option.some.inj heq)
      dsimp only at hsame
      omega

/-- An order of no quantity does nothing. -/
theorem Submitted.untouched [LawfulUpstream B] {side : Side} {limit : Option ℕ} {price : ℕ}
    {r : MatchResult}
    (h : Submitted x x' a side limit 0 r (rested x.nextOrderId side price .gtc r)) :
    r = ⟨[], 0, true⟩ ∧ ∀ c j, x'.getOrder c j = x.getOrder c j := by
  have hsum := h.filled.matched.conserves
  have hexec : r.executedQuantity = 0 := by omega
  have hrem : r.remainingQuantity = 0 := by omega
  have htrades : r.trades = [] := by
    apply List.eq_nil_iff_forall_not_mem.mpr
    intro t ht
    have hpos := h.filled.matched.positive t ht
    have hle : t.quantity ≤ r.executedQuantity :=
      List.single_le_sum (by simp) _ (List.mem_map.mpr ⟨t, ht, rfl⟩)
    omega
  have hr : r = ⟨[], 0, true⟩ := by
    have hc := h.filled.matched.complete
    cases r
    simp_all
  refine ⟨hr, fun c j => ?_⟩
  rw [h.filled.getOrder]
  have hnew : x.newOrderId.2.getOrder = x.getOrder := rfl
  split_ifs with hca hj
  · rw [hca, hj, rested, if_neg (by omega)]
    exact h.filled.absent.symm
  · rw [hca, hnew, hr]
    cases ho : x.getOrder a j with
    | none => rfl
    | some o =>
      have hpos : 0 < o.visibleQuantity := LawfulUpstream.getOrder_pos _ _ _ ho
      simp [makerFilled, hpos]
  · rfl

end Exchange

namespace AppState
variable {B F : Type} [Upstream B] {s : AppState B F}

section Tracking
variable {symbol underlying : String} {side : Side} {a : OptionAddr} {price : ℕ} {r : MatchResult}
  {info : OrderInfo}

theorem recordFills_track (s : AppState B F) (fills : List ExecutedFill) :
    (s.track info).recordFills symbol underlying side fills =
      (s.recordFills symbol underlying side fills).track info := by
  induction fills generalizing s with
  | nil => rfl
  | cons fill fills ih =>
    have hone : (s.track info).recordFill symbol underlying side fill =
        (s.recordFill symbol underlying side fill).track info := by
      unfold recordFill
      split_ifs <;> rfl
    change ((s.track info).recordFill symbol underlying side fill).recordFills _ _ _ fills = _
    rw [hone]
    exact ih _

/-- Whether the order is tracked before or after its fills are reported makes no difference. -/
theorem reportLimit_track (s : AppState B F) :
    (s.track info).reportLimit symbol underlying a side price r =
      (s.reportLimit symbol underlying a side price r).track info := by
  have hrecord : (s.track info).recordMatch symbol underlying side r =
      (s.recordMatch symbol underlying side r).track info := by
    unfold recordMatch
    split_ifs
    · exact recordFills_track s _
    · rfl
  have hmatch : ∀ s : AppState B F, (s.track info).publishMatch a side r =
      (s.publishMatch a side r).track info := by
    intro s
    unfold publishMatch
    split_ifs <;> rfl
  unfold reportLimit publishRest
  rw [hrecord, hmatch]
  split_ifs <;> rfl

end Tracking

section Paths
variable {item : BulkOrderItem} {e : ExpirationDate} {a : OptionAddr} {r : MatchResult}

/-- The books, the tracked orders, the recorded fills and the deltas are the same. -/
structure SameEffect (s s' : AppState B F) : Prop where
  books : ∀ a i, s.market.getOrder a i = s'.market.getOrder a i
  orders : ∀ key, s.orders.lookup key = s'.orders.lookup key
  data : s.toMarketData = s'.toMarketData
  tradeEvents : s.tradeEvents = s'.tradeEvents
  deltas : s.deltas = s'.deltas

theorem checkAddOrder_item (hp : parseExpiration item.expiration = .ok e) :
    s.checkAddOrder item.path item.body = .ok (item.addr e, .gtc) := by
  have hstyle : parseOptionStyle (Desk.styleName item.style) = .ok item.style := by
    cases item.style <;> decide +kernel
  simp [checkAddOrder, BulkOrderItem.path, BulkOrderItem.body, hp, hstyle, requestedTif,
    BulkOrderItem.addr, bind, Except.bind, pure, Except.pure]

/-- On a book that exists, `add_order` follows up the book's answer. -/
theorem addOrder_item (hp : parseExpiration item.expiration = .ok e)
    (hb : s.market.hasBook (item.addr e) = true) :
    (s.addOrder item.path item.body).2 = match s.market.answer (item.addr e) item with
      | (.error _, x) => s.withMarket x
      | (.ok r, x) =>
        s.acceptLimit item.expiration (item.addr e) item.body s.market.nextOrderId r x := by
  unfold addOrder
  rw [checkAddOrder_item hp]
  dsimp only
  unfold submitLimit
  rw [openBook_of_hasBook hb]
  change (match s.market.answer (item.addr e) item with
    | (.error e, x) => _
    | (.ok r, x) => _ : Except ApiError AddOrderResponse × AppState B F).2 = _
  split <;> rfl

theorem submitSingleOrder_item (hb : s.market.hasBook (item.addr e) = true) :
    (s.submitSingleOrder item).2 =
      match s.market.locate item.underlying item.expiration item.strike item.style with
      | .error _ => s
      | .ok a =>
        match s.market.answer a item with
        | (.error _, x) => s.withMarket x
        | (.ok r, x) => s.acceptItem a item s.market.nextOrderId r x := by
  have hcreate : s.market.getOrCreate item.underlying = s.market := getOrCreate_of_hasBook hb
  have hwith : s.withMarket s.market = s := rfl
  unfold submitSingleOrder
  dsimp only
  rw [hcreate, hwith]
  cases hl : s.market.locate item.underlying item.expiration item.strike item.style with
  | error m => cases m <;> rfl
  | ok a =>
    dsimp only
    unfold submitItem
    change (match s.market.answer a item with
      | (.error e, x) => _
      | (.ok r, x) => _ : Except String (OrderId × ℕ) × AppState B F).2 = _
    split <;> rfl

variable [LawfulUpstream B]

theorem addOrder_refused (hf : s.market.Fresh) (hp : parseExpiration item.expiration = .ok e)
    (hb : s.market.hasBook (item.addr e) = true) (h : ¬ s.market.TakesOn (item.addr e) item) :
    ∃ x, Idle s.market x ∧ (s.addOrder item.path item.body).2 = s.withMarket x := by
  obtain ⟨m, hm, hi⟩ := answer_refused hf h
  refine ⟨_, hi, ?_⟩
  rw [addOrder_item hp hb]
  split
  · rename_i he
    rw [he]
  · rename_i he
    rw [he] at hm
    cases hm

omit [LawfulUpstream B] in
theorem addOrder_accepted (hp : parseExpiration item.expiration = .ok e)
    (hb : s.market.hasBook (item.addr e) = true)
    (h : (s.market.answer (item.addr e) item).1 = .ok r) : (s.addOrder item.path item.body).2 =
      s.acceptLimit item.expiration (item.addr e) item.body s.market.nextOrderId r
        (s.market.answer (item.addr e) item).2 := by
  rw [addOrder_item hp hb]
  split
  · rename_i he
    rw [he] at h
    cases h
  · rename_i he
    rw [he] at h ⊢
    rw [Except.ok.inj h]

theorem submitSingleOrder_refused (hf : s.market.Fresh)
    (hb : s.market.hasBook (item.addr e) = true)
    (h : ¬ ∃ a, s.market.Leads item a ∧ s.market.TakesOn a item) :
    ∃ x, Idle s.market x ∧ (s.submitSingleOrder item).2 = s.withMarket x := by
  rw [submitSingleOrder_item hb]
  cases hl : s.market.locate item.underlying item.expiration item.strike item.style with
  | error m => exact ⟨s.market, .refl _, rfl⟩
  | ok a =>
    obtain ⟨m, hm, hi⟩ := answer_refused hf fun hacc => h ⟨a, hl, hacc⟩
    refine ⟨_, hi, ?_⟩
    dsimp only
    split
    · rename_i he
      rw [he]
    · rename_i he
      rw [he] at hm
      cases hm

omit [LawfulUpstream B] in
theorem submitSingleOrder_accepted (hb : s.market.hasBook (item.addr e) = true)
    (hl : s.market.Leads item a) (h : (s.market.answer a item).1 = .ok r) :
    (s.submitSingleOrder item).2 =
      s.acceptItem a item s.market.nextOrderId r (s.market.answer a item).2 := by
  rw [submitSingleOrder_item hb, hl]
  dsimp only
  split
  · rename_i he
    rw [he] at h
    cases h
  · rename_i he
    rw [he] at h ⊢
    rw [Except.ok.inj h]

/-- Both paths are refused; or both are followed up, the date of the book is what the item
writes, and the same book answered, or none had anything to do. -/
def Alike (x : Exchange B) (e : ExpirationDate) (item : BulkOrderItem) : Prop :=
  (¬ x.TakesOn (item.addr e) item ∧ ¬ ∃ a, x.Leads item a ∧ x.TakesOn a item) ∨
  x.TakesOn (item.addr e) item ∧ formatExpiration B x.now e = item.expiration ∧
    ∃ a, x.Leads item a ∧ x.TakesOn a item ∧ (a = item.addr e ∨ item.quantity = 0)

omit [LawfulUpstream B] in
theorem infos_eq_iff {id : OrderId} {now : ℕ} : addedInfo B now (item.addr e) item.body id r =
    itemInfo B now item id r ↔ formatExpiration B now e = item.expiration := by
  constructor
  · exact fun h => congrArg OrderInfo.expiration h
  · intro h
    unfold addedInfo itemInfo BulkOrderItem.addr BulkOrderItem.body
    dsimp only
    rw [h]
    rfl

omit [LawfulUpstream B] in
/-- On one book and under the date's own form the two paths end in the same state. -/
theorem accept_eq {x : Exchange B} (h : formatExpiration B x.now e = item.expiration)
    (id : OrderId) : s.acceptLimit item.expiration (item.addr e) item.body id r x =
      s.acceptItem (item.addr e) item id r x := by
  unfold acceptLimit acceptItem
  rw [infos_eq_iff.mpr h, reportLimit_track]
  rfl

omit [LawfulUpstream B] in
theorem SameEffect.of_eq {s' : AppState B F} (h : s = s') : SameEffect s s' := by
  subst h
  exact ⟨fun _ _ => rfl, fun _ => rfl, rfl, rfl, rfl⟩

omit [LawfulUpstream B] in
theorem reportLimit_untouched (s : AppState B F) (symbol underlying : String) (a : OptionAddr)
    (side : Side) (price : ℕ) :
    s.reportLimit symbol underlying a side price ⟨[], 0, true⟩ = s := rfl

theorem Alike.sameEffect (hf : s.market.Fresh) (hp : parseExpiration item.expiration = .ok e)
    (hb : s.market.hasBook (item.addr e) = true) (h : Alike s.market e item) :
    SameEffect (s.addOrder item.path item.body).2 (s.submitSingleOrder item).2 := by
  rcases h with ⟨hsingle, hbulk⟩ | ⟨⟨r, hr⟩, hform, a, hl, ⟨r', hr'⟩, hsame⟩
  · obtain ⟨x, hi, hx⟩ := addOrder_refused hf hp hb hsingle
    obtain ⟨x', hi', hx'⟩ := submitSingleOrder_refused hf hb hbulk
    rw [hx, hx']
    exact ⟨fun c j => (hi.getOrder c j).trans (hi'.getOrder c j).symm, fun _ => rfl, rfl, rfl,
      rfl⟩
  · have hs := answer_accepted hf hr
    have hs' := answer_accepted hf hr'
    rw [addOrder_accepted hp hb hr, submitSingleOrder_accepted hb hl hr']
    by_cases ha : a = item.addr e
    · subst ha
      obtain rfl := Except.ok.inj (hr.symm.trans hr')
      exact .of_eq (accept_eq (hs.now ▸ hform) _)
    · have hq : item.quantity = 0 := hsame.resolve_left ha
      rw [hq] at hs hs'
      obtain ⟨rfl, hbooks⟩ := hs.untouched
      obtain ⟨rfl, hbooks'⟩ := hs'.untouched
      unfold acceptLimit acceptItem
      rw [reportLimit_untouched, reportLimit_untouched, hs.now, hs'.now,
        infos_eq_iff.mpr hform]
      exact ⟨fun c j => (hbooks c j).trans (hbooks' c j).symm, fun _ => rfl, rfl, rfl, rfl⟩

/-- What is tracked under the next id afterwards. -/
theorem addOrder_lookup (hf : s.market.Fresh) (hp : parseExpiration item.expiration = .ok e)
    (hb : s.market.hasBook (item.addr e) = true)
    (hr : (s.market.answer (item.addr e) item).1 = .ok r) :
    (s.addOrder item.path item.body).2.orders.lookup (showOrderId B s.market.nextOrderId) =
      some (addedInfo B s.market.now (item.addr e) item.body s.market.nextOrderId r) := by
  have hs := answer_accepted hf hr
  rw [addOrder_accepted hp hb hr,
    (acceptLimit_recorded item.expiration item.body _ hs.filled.matched.positive).2, hs.now]
  simp

theorem submitSingleOrder_lookup (hf : s.market.Fresh)
    (hb : s.market.hasBook (item.addr e) = true) (hl : s.market.Leads item a)
    (hr : (s.market.answer a item).1 = .ok r) :
    (s.submitSingleOrder item).2.orders.lookup (showOrderId B s.market.nextOrderId) =
      some (itemInfo B s.market.now item s.market.nextOrderId r) := by
  have hs := answer_accepted hf hr
  rw [submitSingleOrder_accepted hb hl hr, acceptItem_orders, hs.now]
  simp

theorem SameEffect.alike (hg : s.Grounded) (hp : parseExpiration item.expiration = .ok e)
    (hb : s.market.hasBook (item.addr e) = true)
    (h : SameEffect (s.addOrder item.path item.body).2 (s.submitSingleOrder item).2) :
    Alike s.market e item := by
  have hf := hg.fresh
  have hnone := hg.unissued le_rfl
  have horder := h.orders (showOrderId B s.market.nextOrderId)
  by_cases hsingle : s.market.TakesOn (item.addr e) item
  · obtain ⟨r, hr⟩ := hsingle
    rw [addOrder_lookup hf hp hb hr] at horder
    by_cases hbulk : ∃ a, s.market.Leads item a ∧ s.market.TakesOn a item
    · obtain ⟨a, hl, r', hr'⟩ := hbulk
      rw [submitSingleOrder_lookup hf hb hl hr'] at horder
      have hform : formatExpiration B s.market.now e = item.expiration :=
        congrArg OrderInfo.expiration (Option.some.inj horder)
      refine .inr ⟨⟨r, hr⟩, hform, a, hl, ⟨r', hr'⟩, ?_⟩
      by_contra hne
      rw [not_or] at hne
      -- the order left a mark on the book of one path and none there on the other
      have hs := answer_accepted hf hr
      have hs' := answer_accepted hf hr'
      obtain ⟨i, hi⟩ := hs.changes (Nat.pos_of_ne_zero hne.2)
      have hbook := h.books (item.addr e) i
      rw [addOrder_accepted hp hb hr, submitSingleOrder_accepted hb hl hr', acceptLimit_market,
        acceptItem_market, hs'.filled.getOrder, if_neg (Ne.symm hne.1)] at hbook
      exact hi hbook
    · obtain ⟨x, -, hx⟩ := submitSingleOrder_refused hf hb hbulk
      rw [hx] at horder
      rw [show (s.withMarket x).orders = s.orders from rfl, hnone] at horder
      cases horder
  · by_cases hbulk : ∃ a, s.market.Leads item a ∧ s.market.TakesOn a item
    · obtain ⟨a, hl, r', hr'⟩ := hbulk
      obtain ⟨x, -, hx⟩ := addOrder_refused hf hp hb hsingle
      rw [submitSingleOrder_lookup hf hb hl hr', hx] at horder
      rw [show (s.withMarket x).orders = s.orders from rfl, hnone] at horder
      cases horder
    · exact .inl ⟨hsingle, hbulk⟩

variable [F64 F]

/-- In every run, on a book that exists, the two paths do the same exactly when both are refused,
or the item writes the date of its book and no earlier book of that date takes the order. -/
theorem paths_agree_iff {ok : AppState B F → Request F → Prop} (h : Reaches Start step ok s)
    (hp : parseExpiration item.expiration = .ok e)
    (hb : s.market.hasBook (item.addr e) = true) :
    SameEffect (s.addOrder item.path item.body).2 (s.submitSingleOrder item).2 ↔
      Alike s.market e item :=
  ⟨fun hs => hs.alike (reaches_grounded h) hp hb,
    fun ha => ha.sameEffect (reaches_grounded h).fresh hp hb⟩

end Paths

section Reference

/-- One unit bid on the call of a book written as `expStr`. -/
def bidItem (expStr : String) : BulkOrderItem := ⟨"BTC", expStr, 10000, .call, .buy, 100, 1⟩

def bookOpened (expStr : String) : AppState ReferenceBook ℚ :=
  reference.step (.createStrike "BTC" expStr 10000)

theorem bookOpened_reaches (expStr : String) :
    Reaches Start step (fun _ _ => True) (bookOpened expStr) :=
  .next (.start reference_start) trivial

theorem paths_disagree : ¬ ∀ s : AppState ReferenceBook ℚ,
    Reaches Start step (fun _ _ => True) s → ∀ item e, parseExpiration item.expiration = .ok e →
      s.market.hasBook (item.addr e) = true →
        SameEffect (s.addOrder item.path item.body).2 (s.submitSingleOrder item).2 := by
  intro h
  have hp : parseExpiration "30" = .ok (.days 30) := by decide +kernel
  have hsame := (h _ (bookOpened_reaches "30") (bidItem "30") _ hp (by decide +kernel)).orders "0"
  have hadded : (((bookOpened "30").addOrder (bidItem "30").path (bidItem "30").body
      ).2.orders.lookup "0").map OrderInfo.expiration = some "19700131" := by decide +kernel
  rw [hsame] at hadded
  exact absurd hadded (by decide +kernel)

theorem paths_agree_date : SameEffect
    ((bookOpened "19700131").addOrder (bidItem "19700131").path (bidItem "19700131").body).2
    ((bookOpened "19700131").submitSingleOrder (bidItem "19700131")).2 := by
  have hp : parseExpiration "19700131" = .ok (.dateTime ⟨30, 57600⟩) := by decide +kernel
  refine (paths_agree_iff (bookOpened_reaches "19700131") hp (by decide +kernel)).mpr (.inr ?_)
  have hacc : (bookOpened "19700131").market.TakesOn
      ((bidItem "19700131").addr (.dateTime ⟨30, 57600⟩)) (bidItem "19700131") :=
    ⟨⟨[], 1, false⟩, by decide +kernel⟩
  have hleads : (bookOpened "19700131").market.Leads (bidItem "19700131")
      ((bidItem "19700131").addr (.dateTime ⟨30, 57600⟩)) := by
    unfold Leads
    decide +kernel
  exact ⟨hacc, by decide +kernel, _, hleads, hacc, .inl rfl⟩

end Reference
end AppState
end OptionChainBackend
