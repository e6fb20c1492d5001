import OptionChainBackend.Api.Admin
import OptionChainBackend.Upstream.Ages

/-!
What one part of a request can do: each handler either leaves the books as they were, or gets
one answer from one book and follows it up. The claims about the REST surface are proved from
these case lemmas; none of them looks into a handler again.
-/
namespace OptionChainBackend
open Foundation Upstream MarketMaker

namespace Exchange
variable {B : Type} [Upstream B]

/-- What a bulk item does to the books: its match, or `none` when it fails. -/
def placeItem (x : Exchange B) (item : BulkOrderItem) :
    Option (OptionAddr × MatchResult) × Exchange B :=
  let x := x.getOrCreate item.underlying
  match x.locate item.underlying item.expiration item.strike item.style with
  | .error _ => (none, x)
  | .ok a =>
    let (id, x) := x.newOrderId
    match x.addLimitOrderFull a id item.side item.price item.quantity with
    | (.error _, x) => (none, x)
    | (.ok r, x) => (some (a, r), x)

/-- An item fails without a trace, or is accepted under the next id on the book its strings lead
to. -/
theorem placeItem_cases [LawfulUpstream B] {x : Exchange B} (hf : x.Fresh)
    (item : BulkOrderItem) :
    (x.placeItem item).2.toCatalog = (x.getOrCreate item.underlying).toCatalog ∧
    ((x.placeItem item).1 = none ∧ Idle x (x.placeItem item).2 ∨
    ∃ a r, (x.placeItem item).1 = some (a, r) ∧
      (x.getOrCreate item.underlying).locate item.underlying item.expiration item.strike
        item.style = .ok a ∧
      Submitted x (x.placeItem item).2 a item.side (some item.price) item.quantity r
        (rested x.nextOrderId item.side item.price .gtc r)) := by
  have hcreate := getOrCreate_idle x item.underlying
  obtain ⟨hb, hn⟩ := getOrCreate_books x item.underlying
  unfold placeItem
  dsimp only
  cases hl : (x.getOrCreate item.underlying).locate item.underlying item.expiration item.strike
      item.style with
  | error m => exact ⟨rfl, .inl ⟨rfl, hcreate⟩⟩
  | ok a =>
    have hnew : (x.getOrCreate item.underlying).newOrderId =
        (x.nextOrderId, (x.getOrCreate item.underlying).newOrderId.2) := Prod.ext hn rfl
    rcases addLimit_cases (hf.quiet hcreate.toQuiet) a item.side item.price item.quantity .gtc
      with ⟨e, x', he, hidle⟩ | ⟨r, x', he, hsub, -⟩ <;>
      have hcat : x'.toCatalog = (x.getOrCreate item.underlying).toCatalog :=
        (congrArg (·.2.toCatalog) he).symm
    · rw [hn] at he
      dsimp only [addLimitOrderFull]
      rw [hnew]
      dsimp only
      rw [he]
      exact ⟨hcat, .inl ⟨rfl, hcreate.trans hidle⟩⟩
    · rw [hn] at he
      dsimp only [addLimitOrderFull]
      rw [hnew]
      dsimp only
      rw [he]
      exact ⟨hcat, .inr ⟨a, r, rfl, rfl, hn ▸ hsub.of_idle hcreate hb hn⟩⟩

theorem placeItem_refused [LawfulUpstream B] {x : Exchange B} (hf : x.Fresh)
    {item : BulkOrderItem} (h : (x.placeItem item).1 = none) : Idle x (x.placeItem item).2 := by
  obtain ⟨-, ⟨-, hi⟩ | ⟨a, r, hsome, -⟩⟩ := placeItem_cases hf item
  · exact hi
  · rw [h] at hsome
    cases hsome

theorem placeItem_accepted [LawfulUpstream B] {x : Exchange B} (hf : x.Fresh)
    {item : BulkOrderItem} {a : OptionAddr} {r : MatchResult}
    (h : (x.placeItem item).1 = some (a, r)) :
    (x.getOrCreate item.underlying).locate item.underlying item.expiration item.strike
      item.style = .ok a ∧
    Submitted x (x.placeItem item).2 a item.side (some item.price) item.quantity r
      (rested x.nextOrderId item.side item.price .gtc r) := by
  obtain ⟨-, ⟨hnone, -⟩ | ⟨a', r', hsome, hl, hs⟩⟩ := placeItem_cases hf item
  · rw [h] at hnone
    cases hnone
  · obtain ⟨rfl, rfl⟩ := Prod.mk.inj (Option.some.inj (h.symm.trans hsome))
    exact ⟨hl, hs⟩

end Exchange

namespace AppState
open Exchange

variable {B F : Type} [Upstream B] {s : AppState B F}

section Reports

/-- What the fills of a match do to the engine. -/
def notifyMakers (d : Desk B F) (r : MatchResult) : Desk B F :=
  (executedFills B r).foldl (fun d fill => if fill.price < 2 ^ 64 then notifyMaker d fill else d) d

/-- What the fills of a match do to the market-data stores. -/
def recordAll (B : Type) [Upstream B] (m : MarketData) (symbol underlying : String) (side : Side)
    (r : MatchResult) : MarketData :=
  (executedFills B r).foldl
    (fun m fill => if fill.price < 2 ^ 64 then m.record symbol underlying side fill else m) m

variable {symbol underlying : String} {a : OptionAddr} {side : Side} {price : ℕ} {r : MatchResult}

theorem recordFills_desk (fills : List ExecutedFill) :
    (s.recordFills symbol underlying side fills).toDesk = fills.foldl
      (fun d fill => if fill.price < 2 ^ 64 then notifyMaker d fill else d) s.toDesk := by
  induction fills generalizing s with
  | nil => rfl
  | cons fill fills ih =>
    have hone : (s.recordFill symbol underlying side fill).toDesk =
        if fill.price < 2 ^ 64 then notifyMaker s.toDesk fill else s.toDesk := by
      unfold recordFill
      split_ifs <;> rfl
    simp only [recordFills, List.foldl_cons] at ih ⊢
    rw [ih, hone]

theorem recordFills_data (fills : List ExecutedFill) :
    (s.recordFills symbol underlying side fills).toMarketData = fills.foldl
      (fun m fill => if fill.price < 2 ^ 64 then m.record symbol underlying side fill else m)
      s.toMarketData := by
  induction fills generalizing s with
  | nil => rfl
  | cons fill fills ih =>
    have hone : (s.recordFill symbol underlying side fill).toMarketData =
        if fill.price < 2 ^ 64 then s.toMarketData.record symbol underlying side fill
        else s.toMarketData := by
      unfold recordFill
      split_ifs <;> rfl
    simp only [recordFills, List.foldl_cons] at ih ⊢
    rw [ih, hone]

/-- Every executed trade has a quantity, so a match without executed quantity has no trades. -/
theorem recordMatch_eq (hpos : ∀ t ∈ r.trades, 0 < t.quantity) :
    s.recordMatch symbol underlying side r =
      s.recordFills symbol underlying side (executedFills B r) := by
  unfold recordMatch
  split_ifs with he
  · rfl
  · have hnil : r.trades = [] := by
      refine List.eq_nil_iff_forall_not_mem.mpr fun t ht => he ?_
      exact (hpos t ht).trans_le (List.le_sum_of_mem (List.mem_map_of_mem ht))
    simp [recordFills, executedFills, hnil]

theorem reportLimit_desk (hpos : ∀ t ∈ r.trades, 0 < t.quantity) :
    (s.reportLimit symbol underlying a side price r).toDesk = notifyMakers s.toDesk r := by
  have hpub : (s.reportLimit symbol underlying a side price r).toDesk =
      (s.recordMatch symbol underlying side r).toDesk := by
    unfold reportLimit publishRest publishMatch
    split_ifs <;> rfl
  rw [hpub, recordMatch_eq hpos, recordFills_desk]
  rfl

theorem reportLimit_data (hpos : ∀ t ∈ r.trades, 0 < t.quantity) :
    (s.reportLimit symbol underlying a side price r).toMarketData =
      recordAll B s.toMarketData symbol underlying side r := by
  have hpub : (s.reportLimit symbol underlying a side price r).toMarketData =
      (s.recordMatch symbol underlying side r).toMarketData := by
    unfold reportLimit publishRest publishMatch
    split_ifs <;> rfl
  rw [hpub, recordMatch_eq hpos, recordFills_data]
  rfl

end Reports

section Accepted
variable {x : Exchange B} {a : OptionAddr} {side : Side} {limit : Option ℕ} {q : ℕ}
  {r : MatchResult} {left : Option RestingOrder}

/-- The state after an accepted submission whose fills are recorded under `symbol`. -/
structure Recorded (s s' : AppState B F) (x : Exchange B) (a : OptionAddr) (symbol : String)
    (side : Side) (r : MatchResult) : Prop where
  market : s'.market = x
  desk : s'.toDesk = notifyMakers { s.toDesk with market := x } r
  data : s'.toMarketData = recordAll B s.toMarketData symbol a.underlying side r
  quoted : s'.quoted = s.quoted
  snapshots : s'.snapshots = s.snapshots
  replacements : s'.replacements = s.replacements

theorem acceptLimit_recorded (expStr : String) (body : AddOrderRequest) (id : OrderId)
    (hpos : ∀ t ∈ r.trades, 0 < t.quantity) :
    Recorded s (s.acceptLimit expStr a body id r x) x a
      (symbolOf a.underlying expStr a.strike a.style) body.side r ∧
    (s.acceptLimit expStr a body id r x).orders =
      s.orders.insert (showOrderId B id) (addedInfo B x.now a body id r) := by
  have hr := reportLimit_reported (s := (s.withMarket x).track (addedInfo B x.now a body id r))
    (symbolOf a.underlying expStr a.strike a.style) a.underlying a body.side body.price r
  exact ⟨⟨hr.market, reportLimit_desk hpos, reportLimit_data hpos, hr.quoted, hr.snapshots,
    hr.replacements⟩, hr.orders⟩

theorem acceptItem_recorded (item : BulkOrderItem) (id : OrderId)
    (ha : a.underlying = item.underlying) (hpos : ∀ t ∈ r.trades, 0 < t.quantity) :
    Recorded s (s.acceptItem a item id r x) x a
      (symbolOf item.underlying item.expiration item.strike item.style) item.side r := by
  have hr := reportLimit_reported (s := s.withMarket x)
    (symbolOf item.underlying item.expiration item.strike item.style) item.underlying a item.side
    item.price r
  refine ⟨hr.market, reportLimit_desk hpos, ?_, hr.quoted, hr.snapshots, hr.replacements⟩
  rw [ha]
  exact reportLimit_data hpos

@[simp] theorem acceptItem_market (item : BulkOrderItem) (id : OrderId) :
    (s.acceptItem a item id r x).market = x :=
  (reportLimit_reported (s := s.withMarket x) _ _ _ _ _ _).market

@[simp] theorem acceptItem_orders (item : BulkOrderItem) (id : OrderId) :
    (s.acceptItem a item id r x).orders =
      s.orders.insert (showOrderId B id) (itemInfo B x.now item id r) := by
  have hr := reportLimit_reported (s := s.withMarket x)
    (symbolOf item.underlying item.expiration item.strike item.style) item.underlying a item.side
    item.price r
  exact congrArg (AList.insert (showOrderId B id) (itemInfo B x.now item id r)) hr.orders

theorem acceptMarket_recorded (expStr : String) (side : Side)
    (hpos : ∀ t ∈ r.trades, 0 < t.quantity) :
    Recorded s (s.acceptMarket expStr a side r x) x a
      (symbolOf a.underlying expStr a.strike a.style) side r ∧
    (s.acceptMarket expStr a side r x).orders = s.orders := by
  have hm := recordMatch_reported (s := s.withMarket x)
    (symbolOf a.underlying expStr a.strike a.style) a.underlying side r
  have hr := hm.trans (publishMatch_reported a side r)
  have hdesk : (s.acceptMarket expStr a side r x).toDesk =
      notifyMakers { s.toDesk with market := x } r := by
    unfold acceptMarket publishMatch
    rw [recordMatch_eq hpos]
    split_ifs <;> exact recordFills_desk _
  have hdata : (s.acceptMarket expStr a side r x).toMarketData = recordAll B s.toMarketData
      (symbolOf a.underlying expStr a.strike a.style) a.underlying side r := by
    unfold acceptMarket publishMatch
    rw [recordMatch_eq hpos]
    split_ifs <;> exact recordFills_data _
  exact ⟨⟨hr.market, hdesk, hdata, hr.quoted, hr.snapshots, hr.replacements⟩, hr.orders⟩

end Accepted
section Submissions

theorem submitLimit_catalog (s : AppState B F) (expStr : String) (a : OptionAddr)
    (tif : TimeInForce) (body : AddOrderRequest) :
    (s.submitLimit expStr a tif body).2.market.toCatalog = (s.market.openBook a).toCatalog := by
  cases h : (s.market.openBook a).newOrderId.2.addLimitOrderWithTif a
      (s.market.openBook a).newOrderId.1 body.side body.price body.quantity tif with
  | mk res x =>
    have hcat : x.toCatalog = (s.market.openBook a).toCatalog :=
      (congrArg (·.2.toCatalog) h).symm
    unfold submitLimit
    dsimp only
    rw [h]
    cases res with
    | error e => exact hcat
    | ok r =>
      refine Eq.trans ?_ hcat
      exact congrArg Exchange.toCatalog (reportLimit_reported _ _ _ _ _ _).market

theorem submitMarket_catalog (s : AppState B F) (expStr : String) (a : OptionAddr)
    (body : MarketOrderRequest) :
    (s.submitMarket expStr a body).2.market.toCatalog = (s.market.openBook a).toCatalog := by
  cases h : (s.market.openBook a).newOrderId.2.submitMarketOrder a
      (s.market.openBook a).newOrderId.1 body.quantity body.side with
  | mk res x =>
    have hcat : x.toCatalog = (s.market.openBook a).toCatalog :=
      (congrArg (·.2.toCatalog) h).symm
    unfold submitMarket
    dsimp only
    rw [h]
    cases res with
    | error e => exact hcat
    | ok r =>
      refine Eq.trans ?_ hcat
      exact congrArg Exchange.toCatalog ((recordMatch_reported _ _ _ _).trans
        (publishMatch_reported _ _ _)).market

variable [LawfulUpstream B]

theorem submitLimit_cases (hf : s.market.Fresh) (expStr : String) (a : OptionAddr)
    (tif : TimeInForce) (body : AddOrderRequest) :
    (∃ x, (s.submitLimit expStr a tif body).2 = s.withMarket x ∧ Idle s.market x) ∨
    ∃ r x, (s.submitLimit expStr a tif body).2 =
        s.acceptLimit expStr a body s.market.nextOrderId r x ∧
      ((s.market.openBook a).newOrderId.2.addLimitOrderWithTif a s.market.nextOrderId body.side
        body.price body.quantity tif).1 = .ok r ∧
      Submitted s.market x a body.side (some body.price) body.quantity r
        (rested s.market.nextOrderId body.side body.price tif r) := by
  have hopen := openBook_idle s.market a
  obtain ⟨hb, hn⟩ := openBook_books s.market a
  have hnew : (s.market.openBook a).newOrderId =
      (s.market.nextOrderId, (s.market.openBook a).newOrderId.2) := Prod.ext hn rfl
  rcases addLimit_cases (hf.quiet hopen.toQuiet) a body.side body.price body.quantity tif with
    ⟨e, x, he, hidle⟩ | ⟨r, x, he, hsub, -⟩
  · refine .inl ⟨x, ?_, hopen.trans hidle⟩
    rw [hn] at he
    unfold submitLimit
    rw [hnew]
    dsimp only
    rw [he]
  · rw [hn] at he
    refine .inr ⟨r, x, ?_, by rw [he], hn ▸ hsub.of_idle hopen hb hn⟩
    unfold submitLimit
    rw [hnew]
    dsimp only
    rw [he]

theorem submitMarket_cases (hf : s.market.Fresh) (expStr : String) (a : OptionAddr)
    (body : MarketOrderRequest) :
    (∃ x, (s.submitMarket expStr a body).2 = s.withMarket x ∧ Idle s.market x) ∨
    ∃ r x, (s.submitMarket expStr a body).2 = s.acceptMarket expStr a body.side r x ∧
      ((s.market.openBook a).newOrderId.2.submitMarketOrder a s.market.nextOrderId body.quantity
        body.side).1 = .ok r ∧
      Submitted s.market x a body.side none body.quantity r none := by
  have hopen := openBook_idle s.market a
  obtain ⟨hb, hn⟩ := openBook_books s.market a
  have hnew : (s.market.openBook a).newOrderId =
      (s.market.nextOrderId, (s.market.openBook a).newOrderId.2) := Prod.ext hn rfl
  rcases market_cases (hf.quiet hopen.toQuiet) a body.side body.quantity with
    ⟨e, x, he, hidle⟩ | ⟨r, x, he, hsub⟩
  · refine .inl ⟨x, ?_, hopen.trans hidle⟩
    rw [hn] at he
    unfold submitMarket
    rw [hnew]
    dsimp only
    rw [he]
  · rw [hn] at he
    refine .inr ⟨r, x, ?_, by rw [he], hsub.of_idle hopen hb hn⟩
    unfold submitMarket
    rw [hnew]
    dsimp only
    rw [he]

omit [LawfulUpstream B] in
/-- A bulk item is tracked and reported when the books accept it. -/
theorem submitSingleOrder_cases (s : AppState B F) (item : BulkOrderItem) :
    (∃ e, (s.market.placeItem item).1 = none ∧
      s.submitSingleOrder item = (.error e, s.withMarket (s.market.placeItem item).2)) ∨
    ∃ a r, (s.market.placeItem item).1 = some (a, r) ∧ s.submitSingleOrder item =
      (.ok (s.market.nextOrderId, r.executedQuantity),
        s.acceptItem a item s.market.nextOrderId r (s.market.placeItem item).2) := by
  obtain ⟨-, hn⟩ := getOrCreate_books s.market item.underlying
  have hnew : (s.market.getOrCreate item.underlying).newOrderId =
      (s.market.nextOrderId, (s.market.getOrCreate item.underlying).newOrderId.2) :=
    Prod.ext hn rfl
  unfold submitSingleOrder placeItem
  dsimp only [withMarket]
  cases (s.market.getOrCreate item.underlying).locate item.underlying item.expiration
      item.strike item.style with
  | error m => cases m <;> exact .inl ⟨_, rfl, rfl⟩
  | ok a =>
    unfold submitItem withMarket
    dsimp only
    rw [hnew]
    dsimp only
    cases (s.market.getOrCreate item.underlying).newOrderId.2.addLimitOrderFull a
        s.market.nextOrderId item.side item.price item.quantity with
    | mk res x =>
      cases res with
      | error e => exact .inl ⟨_, rfl, rfl⟩
      | ok r => exact .inr ⟨a, r, rfl, rfl⟩

theorem placeReplacement_cases (hf : s.market.Fresh) (expStr orderIdStr : String)
    (a : OptionAddr) (side : Side) (price q : ℕ) :
    (∃ x, (s.placeReplacement expStr orderIdStr a side price q).2 = s.withMarket x ∧
      Idle s.market x) ∨
    ∃ r x, (s.placeReplacement expStr orderIdStr a side price q).2 =
        ({ (s.withMarket x).track
            (replacementInfo B x.now expStr a side price q s.market.nextOrderId) with
          replacements := s.market.nextOrderId :: s.replacements }).publishLevelDelta a side
            price ∧
      (s.market.newOrderId.2.addLimitOrderWithTif a s.market.nextOrderId side price q .gtc).1 =
        .ok r ∧
      Submitted s.market x a side (some price) q r
        (rested s.market.nextOrderId side price .gtc r) := by
  have hnew : s.market.newOrderId = (s.market.nextOrderId, s.market.newOrderId.2) := rfl
  rcases addLimit_cases hf a side price q .gtc with ⟨e, x, he, hidle⟩ | ⟨r, x, he, hsub, -⟩
  · refine .inl ⟨x, ?_, hidle⟩
    unfold placeReplacement addLimitOrder addLimitOrderFull
    rw [hnew]
    dsimp only
    rw [he]
    rfl
  · refine .inr ⟨r, x, ?_, by rw [he], hsub⟩
    unfold placeReplacement addLimitOrder addLimitOrderFull
    rw [hnew]
    dsimp only
    rw [he]
    rfl

end Submissions

section Cancels
variable [LawfulUpstream B]

/-- A book call of DELETE: it fails, it removes the order, or it does not find it. -/
theorem cancelAt_cases (a : OptionAddr) (id : OrderId) (key : String) :
    (∃ e x, (s.cancelAt a id key).2 = s.withMarket x ∧
      (s.market.cancelOrder a id).1 = .error e ∧ Idle s.market x) ∨
    (∃ x, (s.cancelAt a id key).2 =
        ((s.withMarket x).untrack key).publishCancelled a (s.market.getOrder a id) ∧
      (s.market.cancelOrder a id).1 = .ok true ∧ Cancelled s.market x a id) ∨
    ∃ x, (s.cancelAt a id key).2 =
        { s.withMarket x with orders := s.orders.modify key (.markFilled s.market.now) } ∧
      (s.market.cancelOrder a id).1 = .ok false ∧ Idle s.market x ∧
      s.market.getOrder a id = none := by
  unfold cancelAt
  cases h : s.market.cancelOrder a id with
  | mk res x =>
    match res with
    | .error e => exact .inl ⟨e, x, rfl, rfl, cancel_idle h nofun⟩
    | .ok true => exact .inr (.inl ⟨x, rfl, rfl, cancel_cancelled h⟩)
    | .ok false => exact .inr (.inr ⟨x, rfl, rfl, cancel_idle h nofun, cancel_false_absent h⟩)

omit [LawfulUpstream B] in
theorem publishCancelled_reported (a : OptionAddr) (o : Option RestingOrder) :
    Reported s (s.publishCancelled a o) := by
  cases o with
  | none => exact .refl s
  | some o => exact publishLevelDelta_reported a o.side o.price

/-- The book and the id that the stored strings of a tracked order lead to. -/
def trackedTarget (x : Exchange B) (key : String) (o : OrderInfo) :
    Option (OptionAddr × OrderId) :=
  match parseOrderId B key, styleOfName o.style with
  | some id, some style =>
    match x.locate o.underlying o.expiration o.strike style with
    | .ok a => some (a, id)
    | .error _ => none
  | _, _ => none

/-- A cancel through the stored strings of a tracked order: it removes the order they lead to, or
nothing happens. -/
theorem cancelTracked_cases (key : String) (o : OrderInfo) :
    (∃ e x, s.cancelTracked key o = (.error e, s.withMarket x) ∧ Idle s.market x ∧
      x.toCatalog = s.market.toCatalog ∧ ∀ a id, trackedTarget s.market key o = some (a, id) →
        (s.market.cancelOrder a id).1 ≠ .ok true) ∨
    ∃ a id x, s.cancelTracked key o =
        (.ok (), ((s.withMarket x).untrack key).publishLevelDelta a o.side o.price) ∧
      trackedTarget s.market key o = some (a, id) ∧ Cancelled s.market x a id := by
  unfold cancelTracked trackedTarget
  cases hp : parseOrderId B key with
  | none => exact .inl ⟨_, s.market, rfl, .refl _, rfl, nofun⟩
  | some id =>
    cases hs : styleOfName o.style with
    | none => exact .inl ⟨_, s.market, rfl, .refl _, rfl, nofun⟩
    | some style =>
      dsimp only
      cases hl : s.market.locate o.underlying o.expiration o.strike style with
      | error m => exact .inl ⟨_, s.market, rfl, .refl _, rfl, nofun⟩
      | ok a =>
        dsimp only
        cases h : s.market.cancelOrder a id with
        | mk res x =>
          have hcat : x.toCatalog = s.market.toCatalog := (congrArg (·.2.toCatalog) h).symm
          have hres : ∀ b j, some (a, id) = some (b, j) → res ≠ .ok true →
              (s.market.cancelOrder b j).1 ≠ .ok true := by
            intro b j hbj hne
            obtain ⟨rfl, rfl⟩ := Prod.mk.inj (Option.some.inj hbj)
            rwa [h]
          match res with
          | .error e =>
            exact .inl ⟨_, x, rfl, cancel_idle h nofun, hcat, fun b j hbj => hres b j hbj nofun⟩
          | .ok false =>
            exact .inl ⟨_, x, rfl, cancel_idle h nofun, hcat, fun b j hbj => hres b j hbj nofun⟩
          | .ok true => exact .inr ⟨a, id, x, rfl, rfl, cancel_cancelled h⟩

/-- The cancel of a rollback, by its answer. -/
theorem cancelBulkItemOrder_cases (item : BulkOrderItem) (id : OrderId) :
    (∃ res x, s.cancelBulkItemOrder item id = (res, s.withMarket x) ∧ Idle s.market x ∧
      x.toCatalog = s.market.toCatalog ∧ (res.toBool = true → res = .ok false ∧
        ∃ a, s.market.locate item.underlying item.expiration item.strike item.style = .ok a ∧
          s.market.getOrder a id = none)) ∨
    ∃ a x, s.cancelBulkItemOrder item id =
        (.ok true, (s.withMarket x).publishLevelDelta a item.side item.price) ∧
      s.market.locate item.underlying item.expiration item.strike item.style = .ok a ∧
      Cancelled s.market x a id := by
  unfold cancelBulkItemOrder
  cases hl : s.market.locate item.underlying item.expiration item.strike item.style with
  | error m =>
    refine .inl ?_
    cases m <;> exact ⟨_, s.market, rfl, .refl _, rfl, nofun⟩
  | ok a =>
    dsimp only
    cases h : s.market.cancelOrder a id with
    | mk res x =>
      have hcat : x.toCatalog = s.market.toCatalog := (congrArg (·.2.toCatalog) h).symm
      match res with
      | .error e => exact .inl ⟨_, x, rfl, cancel_idle h nofun, hcat, nofun⟩
      | .ok false =>
        exact .inl ⟨_, x, rfl, cancel_idle h nofun, hcat, fun _ =>
          ⟨rfl, a, rfl, cancel_false_absent h⟩⟩
      | .ok true => exact .inr ⟨a, x, rfl, rfl, cancel_cancelled h⟩

omit [LawfulUpstream B] in
theorem cancelAt_catalog (a : OptionAddr) (id : OrderId) (key : String) :
    (s.cancelAt a id key).2.market.toCatalog = s.market.toCatalog := by
  unfold cancelAt
  cases h : s.market.cancelOrder a id with
  | mk res x =>
    have hcat : x.toCatalog = s.market.toCatalog := (congrArg (·.2.toCatalog) h).symm
    match res with
    | .error e => exact hcat
    | .ok false => exact hcat
    | .ok true =>
      refine Eq.trans ?_ hcat
      exact congrArg Exchange.toCatalog (publishCancelled_reported a _).market

omit [LawfulUpstream B] in
theorem placeReplacement_catalog (expStr key : String) (a : OptionAddr) (side : Side)
    (price q : ℕ) : (s.placeReplacement expStr key a side price q).2.market.toCatalog =
      s.market.toCatalog := by
  cases h : s.market.newOrderId.2.addLimitOrder a s.market.newOrderId.1 side price q with
  | mk res x =>
    have hcat : x.toCatalog = s.market.toCatalog := (congrArg (·.2.toCatalog) h).symm
    unfold placeReplacement
    dsimp only
    rw [h]
    cases res with
    | error e => exact hcat
    | ok _ => exact hcat

omit [LawfulUpstream B] in
theorem replaceOrder_catalog (expStr key : String) (a : OptionAddr) (id : OrderId)
    (o : RestingOrder) (price q : ℕ) :
    (s.replaceOrder expStr key a id o price q).2.market.toCatalog = s.market.toCatalog := by
  unfold replaceOrder
  cases h : s.market.cancelOrder a id with
  | mk res x =>
    have hcat : x.toCatalog = s.market.toCatalog := (congrArg (·.2.toCatalog) h).symm
    match res with
    | .error e => exact hcat
    | .ok false => exact hcat
    | .ok true => exact (placeReplacement_catalog _ _ _ _ _ _).trans hcat

theorem replaceOrder_cases (expStr key : String) (a : OptionAddr) (id : OrderId)
    (o : RestingOrder) (price q : ℕ) :
    (∃ x, (s.replaceOrder expStr key a id o price q).2 = s.withMarket x ∧ Idle s.market x) ∨
    ∃ x, (s.replaceOrder expStr key a id o price q).2 =
        ((((s.withMarket x).untrack key).publishLevelDelta a o.side o.price).placeReplacement
          expStr key a o.side price q).2 ∧
      (s.market.cancelOrder a id) = (.ok true, x) ∧ Cancelled s.market x a id := by
  unfold replaceOrder
  cases h : s.market.cancelOrder a id with
  | mk res x =>
    match res with
    | .error e => exact .inl ⟨x, rfl, cancel_idle h nofun⟩
    | .ok false => exact .inl ⟨x, rfl, cancel_idle h nofun⟩
    | .ok true => exact .inr ⟨x, rfl, rfl, cancel_cancelled h⟩

omit [LawfulUpstream B] in
/-- What a valid PATCH reads off the book, and what it asks for. -/
theorem checkModifyOrder_ok {p : OptionPath} {key : String} {body : ModifyOrderRequest}
    {a : OptionAddr} {id : OrderId} {o : RestingOrder} {price q : ℕ}
    (h : s.checkModifyOrder p key body = .ok (a, id, o, price, q)) :
    target s.market p key = .ok (a, id) ∧ s.market.getOrder a id = some o ∧
      price = body.price.getD o.price ∧ q = body.quantity.getD o.visibleQuantity ∧ 0 < q := by
  unfold checkModifyOrder at h
  simp only [bind, Except.bind] at h
  split_ifs at h
  cases ht : target s.market p key with
  | error e =>
    rw [ht] at h
    cases h
  | ok v =>
    obtain ⟨a', id'⟩ := v
    rw [ht] at h
    dsimp only at h
    cases ho : s.market.getOrder a' id' with
    | none =>
      rw [ho] at h
      cases h
    | some o' =>
      rw [ho] at h
      dsimp only at h
      split_ifs at h with hprice hquantity
      cases h
      exact ⟨rfl, ho, rfl, rfl, Nat.pos_of_ne_zero hquantity⟩

end Cancels
end AppState
end OptionChainBackend
