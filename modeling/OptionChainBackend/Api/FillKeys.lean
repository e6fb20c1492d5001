import OptionChainBackend.Api.Segments

/-!
The key a fill is filed under. Each submit path builds it from the strings of its own request,
and every store uses that one key.
-/
namespace OptionChainBackend
open Foundation Foundation.Decimal Upstream MarketMaker Exchange

/-- A call of one of the three submit paths. -/
inductive Submission where
  | limit (p : OptionPath) (body : AddOrderRequest)
  | market (p : OptionPath) (body : MarketOrderRequest)
  | bulk (item : BulkOrderItem)

namespace Submission
variable {B F : Type} [Upstream B]

def apply (s : AppState B F) : Submission → AppState B F
  | .limit p body => (s.addOrder p body).2
  | .market p body => (s.submitMarketOrder p body).2
  | .bulk item => (s.submitSingleOrder item).2

def underlying : Submission → String
  | .limit p _ => p.underlying
  | .market p _ => p.underlying
  | .bulk item => item.underlying

/-- The expiration as the request spells it. -/
def segment : Submission → String
  | .limit p _ => p.expStr
  | .market p _ => p.expStr
  | .bulk item => item.expiration

def side : Submission → Side
  | .limit _ body => body.side
  | .market _ body => body.side
  | .bulk item => item.side

/-- The key of the fills it executes on `a`. -/
def key (sub : Submission) (a : OptionAddr) : String :=
  symbolOf sub.underlying sub.segment a.strike a.style

/-- `add_order` and `submit_market_order` parse the segment, a bulk item looks it up. -/
def ResolvesTo (x : Exchange B) (a : OptionAddr) : Submission → Prop
  | .limit p _ => parseExpiration p.expStr = .ok a.expiration
  | .market p _ => parseExpiration p.expStr = .ok a.expiration
  | .bulk item => x.findExpirationByStr item.underlying item.expiration = some a.expiration

/-- Whether the path parses its segment. -/
def parses : Submission → Bool
  | .bulk _ => false
  | _ => true

theorem parses_resolvesTo {sub : Submission} {x : Exchange B} {a : OptionAddr}
    (h : sub.parses = true) (hr : sub.ResolvesTo x a) :
    parseExpiration sub.segment = .ok a.expiration := by
  cases sub with
  | limit p body => exact hr
  | market p body => exact hr
  | bulk item => cases h

/-- The symbol of the tracked taker order. -/
def takerSymbol (x : Exchange B) (a : OptionAddr) : Submission → Option String
  | .limit p _ =>
    some (symbolOf p.underlying (formatExpiration B x.now a.expiration) a.strike a.style)
  | .market _ _ => none
  | .bulk item => some (symbolOf item.underlying item.expiration a.strike a.style)

end Submission

namespace AppState
variable {B F : Type} [Upstream B] {s s' : AppState B F}

section Recording
variable {symbol underlying : String} {side : Side} {fill : ExecutedFill} {t : Trade}
  {r : MatchResult} {m : MarketData}

/-- A fill is filed under `key` in every market-data store. -/
structure FiledIn (m : MarketData) (tradeId : String) (key : String) : Prop where
  position : (m.positions.lookup key).isSome
  lastTrade : (m.lastTrades.lookup key).isSome
  bars : ∀ i, (m.ohlc.lookup (key, i)).isSome
  execution : ∃ info, m.executions.lookup tradeId = some info ∧ info.symbol = key

theorem recordTrade_lookup (bars : OhlcAggregator) (timestampMs price q : ℕ) (i : OhlcInterval) :
    ((bars.recordTrade symbol timestampMs price q).lookup (symbol, i)).isSome := by
  unfold OhlcAggregator.recordTrade OhlcInterval.all OhlcAggregator.updateBar
  cases i <;> simp

theorem FiledIn.record (m : MarketData) : FiledIn (m.record symbol underlying side fill)
    fill.tradeId symbol where
  position := by simp [MarketData.record, MarketData.updatePositionOnFill]
  lastTrade := by simp [MarketData.record]
  bars i := recordTrade_lookup _ _ _ _ i
  execution := ⟨MarketData.executionInfo symbol side fill, by simp [MarketData.record], rfl⟩

/-- A later fill under the same key leaves an earlier one filed there. -/
theorem FiledIn.keep {tradeId : String} (h : FiledIn m tradeId symbol) :
    FiledIn (m.record symbol underlying side fill) tradeId symbol := by
  have hnew : FiledIn (m.record symbol underlying side fill) fill.tradeId symbol := .record m
  refine ⟨hnew.position, hnew.lastTrade, hnew.bars, ?_⟩
  by_cases hid : tradeId = fill.tradeId
  · exact hid ▸ hnew.execution
  · obtain ⟨info, hinfo, hs⟩ := h.execution
    refine ⟨info, ?_, hs⟩
    simpa [MarketData.record, MarketData.updatePositionOnFill, hid] using hinfo

theorem recordAll_filed (ht : t ∈ r.trades) (hprice : t.price < 2 ^ 64) :
    FiledIn (recordAll B m symbol underlying side r) (showTradeId B t.tradeId) symbol := by
  have hrow : ∀ (fills : List ExecutedFill) (m : MarketData), ∀ fill,
      (fill ∈ fills ∧ fill.price < 2 ^ 64 ∨ FiledIn m fill.tradeId symbol) →
      FiledIn (fills.foldl (fun m fill => if fill.price < 2 ^ 64 then
        m.record symbol underlying side fill else m) m) fill.tradeId symbol := by
    intro fills
    induction fills with
    | nil =>
      rintro m fill (⟨hm, -⟩ | h)
      · cases hm
      · exact h
    | cons head fills ih =>
      rintro m fill (⟨hm, hp⟩ | h)
      · rcases List.mem_cons.mp hm with rfl | hm
        · apply ih
          dsimp only
          rw [if_pos hp]
          exact .inr (.record m)
        · exact ih _ fill (.inl ⟨hm, hp⟩)
      · apply ih
        dsimp only
        split_ifs
        · exact .inr h.keep
        · exact .inr h
  exact hrow (executedFills B r) m _ (.inl ⟨List.mem_map.mpr ⟨t, ht, rfl⟩, hprice⟩)

end Recording

section Publishing
variable {symbol underlying : String} {side : Side} {a : OptionAddr} {price : ℕ} {r : MatchResult}

/-- Publishing appends deltas under one symbol and nothing else. -/
structure Published (f f' : Subscriptions) (symbol : String) : Prop where
  tradeEvents : f'.tradeEvents = f.tradeEvents
  deltas : ∃ ds, f'.deltas = f.deltas ++ ds ∧ ∀ d ∈ ds, d.symbol = symbol

theorem Published.refl (f : Subscriptions) : Published f f symbol :=
  ⟨rfl, [], (List.append_nil _).symm, nofun⟩

theorem Published.trans {f f' f'' : Subscriptions} (h : Published f f' symbol)
    (h' : Published f' f'' symbol) : Published f f'' symbol := by
  obtain ⟨ds, hds, hall⟩ := h.deltas
  obtain ⟨ds', hds', hall'⟩ := h'.deltas
  refine ⟨h'.tradeEvents.trans h.tradeEvents, ds ++ ds', ?_, ?_⟩
  · rw [hds', hds, List.append_assoc]
  · intro d hd
    rcases List.mem_append.mp hd with hd | hd
    · exact hall d hd
    · exact hall' d hd

theorem publishLevelDelta_published (f : Subscriptions) (x : Exchange B) (a : OptionAddr)
    (side : Side) (price : ℕ) : Published f (f.publishLevelDelta x a side price) (x.symbols a) :=
  ⟨rfl, _, rfl, fun d hd => by rw [List.mem_singleton.mp hd]; rfl⟩

theorem publishMatch_published (s : AppState B F) (a : OptionAddr) (side : Side)
    (r : MatchResult) : Published s.toSubscriptions
    (s.publishMatch a side r).toSubscriptions (s.market.symbols a) := by
  unfold publishMatch
  split_ifs
  · unfold publishConsumedMakerDeltas Subscriptions.publishConsumedMakerDeltas
    apply List.foldlRecOn (motive := fun f => Published s.toSubscriptions f (s.market.symbols a))
    · exact .refl _
    · exact fun f hf price _ => hf.trans (publishLevelDelta_published f _ _ _ _)
  · exact .refl _

theorem publishRest_published (s : AppState B F) (a : OptionAddr) (side : Side) (price : ℕ)
    (r : MatchResult) : Published s.toSubscriptions
    (s.publishRest a side price r).toSubscriptions (s.market.symbols a) := by
  unfold publishRest
  split_ifs
  · exact publishLevelDelta_published _ _ _ _ _
  · exact .refl _

/-- Recording broadcasts one trade event for each fill recorded, and no delta. -/
theorem recordFills_events (s : AppState B F) (symbol underlying : String) (side : Side)
    (fills : List ExecutedFill) :
    (s.recordFills symbol underlying side fills).deltas = s.deltas ∧
    (∀ ev ∈ s.tradeEvents, ev ∈ (s.recordFills symbol underlying side fills).tradeEvents) ∧
    ∀ fill ∈ fills, fill.price < 2 ^ 64 →
      ∃ ev ∈ (s.recordFills symbol underlying side fills).tradeEvents,
        ev.tradeId = fill.tradeId ∧ ev.symbol = symbol := by
  induction fills generalizing s with
  | nil => exact ⟨rfl, fun _ => id, nofun⟩
  | cons head fills ih =>
    obtain ⟨hd, hold, hnew⟩ := ih (s.recordFill symbol underlying side head)
    have hone : (s.recordFill symbol underlying side head).deltas = s.deltas ∧
        ∀ ev ∈ s.tradeEvents, ev ∈ (s.recordFill symbol underlying side head).tradeEvents := by
      unfold recordFill
      split_ifs
      · exact ⟨rfl, fun ev hev => List.mem_append_left _ hev⟩
      · exact ⟨rfl, fun _ => id⟩
    refine ⟨hd.trans hone.1, fun ev hev => hold ev (hone.2 ev hev), fun fill hm hp => ?_⟩
    rcases List.mem_cons.mp hm with rfl | hm
    · refine ⟨⟨fill.tradeId, symbol, fill.price, fill.quantity, fill.timestampMs,
        fill.makerOrderId, fill.takerOrderId⟩, hold _ ?_, rfl, rfl⟩
      unfold recordFill
      rw [if_pos hp]
      exact List.mem_append_right _ (List.mem_singleton.mpr rfl)
    · exact hnew fill hm hp

/-- The events of a match that is recorded and then published. -/
structure Announced (sent : List OrderbookDeltaEvent) (s' : AppState B F)
    (symbol deltaSymbol : String) (r : MatchResult) : Prop where
  trades : ∀ t ∈ r.trades, t.price < 2 ^ 64 → ∃ ev ∈ s'.tradeEvents,
    ev.tradeId = showTradeId B t.tradeId ∧ ev.symbol = symbol
  deltas : ∃ ds, s'.deltas = sent ++ ds ∧ ∀ d ∈ ds, d.symbol = deltaSymbol

theorem recordMatch_announced (hpos : ∀ t ∈ r.trades, 0 < t.quantity) (deltaSymbol : String) :
    Announced s.deltas (s.recordMatch symbol underlying side r) symbol deltaSymbol r := by
  rw [recordMatch_eq hpos]
  obtain ⟨hd, -, hnew⟩ := recordFills_events s symbol underlying side (executedFills B r)
  constructor
  · intro t ht hp
    exact hnew _ (List.mem_map.mpr ⟨t, ht, rfl⟩) hp
  · exact ⟨[], hd.trans (List.append_nil _).symm, nofun⟩

theorem Announced.published {s'' : AppState B F} {sent : List OrderbookDeltaEvent}
    {deltaSymbol : String} (h : Announced sent s' symbol deltaSymbol r)
    (hp : Published s'.toSubscriptions s''.toSubscriptions deltaSymbol) :
    Announced sent s'' symbol deltaSymbol r := by
  obtain ⟨ds, hds, hall⟩ := h.deltas
  obtain ⟨ds', hds', hall'⟩ := hp.deltas
  constructor
  · intro t ht hprice
    rw [hp.tradeEvents]
    exact h.trades t ht hprice
  · refine ⟨ds ++ ds', ?_, ?_⟩
    · rw [hds', hds, List.append_assoc]
    · intro d hd
      rcases List.mem_append.mp hd with hd | hd
      · exact hall d hd
      · exact hall' d hd

theorem matched_announced (s : AppState B F) (symbol underlying : String) (side : Side)
    (a : OptionAddr) (hpos : ∀ t ∈ r.trades, 0 < t.quantity) :
    Announced s.deltas ((s.recordMatch symbol underlying side r).publishMatch a side r) symbol
      (s.market.symbols a) r := by
  have hmarket := (recordMatch_reported (s := s) symbol underlying side r).market
  have hpub := publishMatch_published (s.recordMatch symbol underlying side r) a side r
  rw [hmarket] at hpub
  exact (recordMatch_announced hpos _).published hpub

theorem reportLimit_announced (s : AppState B F) (symbol underlying : String) (a : OptionAddr)
    (side : Side) (price : ℕ) (hpos : ∀ t ∈ r.trades, 0 < t.quantity) :
    Announced s.deltas (s.reportLimit symbol underlying a side price r) symbol
      (s.market.symbols a) r := by
  have hmarket := ((recordMatch_reported (s := s) symbol underlying side r).trans
    (publishMatch_reported a side r)).market
  have hpub := publishRest_published
    ((s.recordMatch symbol underlying side r).publishMatch a side r) a side price r
  rw [hmarket] at hpub
  exact (matched_announced s symbol underlying side a hpos).published hpub

end Publishing

section Submissions
variable {sub : Submission} {a : OptionAddr} {r : MatchResult}

/-- The books accepted the submission on `a`, and it was followed up. -/
structure Accepted (s s' : AppState B F) (sub : Submission) (a : OptionAddr) (r : MatchResult) :
    Prop where
  resolves : sub.ResolvesTo s.market a
  underlying : a.underlying = sub.underlying
  positive : ∀ t ∈ r.trades, 0 < t.quantity
  tape : s'.market.tape = s.market.tape ++ r.trades.map fun t => ⟨a, sub.side, t⟩
  data : s'.toMarketData = recordAll B s.toMarketData (sub.key a) a.underlying sub.side r
  announced : Announced s.deltas s' (sub.key a) (s'.market.symbols a) r
  takers : ∀ t ∈ r.trades, t.takerOrderId = s.market.nextOrderId
  taker : ∀ symbol, sub.takerSymbol s.market a = some symbol → ∃ o,
    s'.orders.lookup (showOrderId B s.market.nextOrderId) = some o ∧ o.symbol = symbol

theorem getOrCreate_find (x : Exchange B) (u underlying expStr : String) :
    (x.getOrCreate u).findExpirationByStr underlying expStr =
      x.findExpirationByStr underlying expStr := by
  unfold getOrCreate
  split_ifs <;> rfl

variable [LawfulUpstream B]

theorem limit_accepted (hg : s.Grounded) {p : OptionPath} {body : AddOrderRequest}
    {tif : TimeInForce} (hc : s.checkAddOrder p body = .ok (a, tif)) :
    (s.submitLimit p.expStr a tif body).2.market.tape = s.market.tape ∨
      ∃ r, Accepted s (s.submitLimit p.expStr a tif body).2 (.limit p body) a r := by
  obtain ⟨hexp, hu, -⟩ := checkAddOrder_ok hc
  rcases submitLimit_cases hg.fresh p.expStr a tif body with ⟨x, he, hi⟩ | ⟨r, x, he, -, hs⟩
  · rw [he]
    exact .inl hi.tape
  · have hpos := hs.filled.matched.positive
    obtain ⟨hr, ho⟩ := acceptLimit_recorded (s := s) (x := x) (a := a) p.expStr body
      s.market.nextOrderId hpos
    have hann : Announced s.deltas (s.acceptLimit p.expStr a body s.market.nextOrderId r x)
        (symbolOf a.underlying p.expStr a.strike a.style) (x.symbols a) r :=
      reportLimit_announced ((s.withMarket x).track
        (addedInfo B x.now a body s.market.nextOrderId r)) _ _ _ _ _ hpos
    have hkey : (Submission.limit p body).key a =
        symbolOf a.underlying p.expStr a.strike a.style := by
      rw [hu]
      rfl
    rw [he]
    refine .inr ⟨r, hexp, hu, hpos, ?_, hkey ▸ hr.data, ?_,
      hs.filled.matched.takers, ?_⟩
    · rw [hr.market]
      exact hs.filled.tape
    · rw [hkey, hr.market]
      exact hann
    · intro symbol hsym
      refine ⟨addedInfo B x.now a body s.market.nextOrderId r, by rw [ho]; simp, ?_⟩
      rw [← Option.some.inj hsym, ← hu, ← hs.now]
      rfl

theorem market_accepted (hg : s.Grounded) {p : OptionPath} {body : MarketOrderRequest}
    (hc : checkMarketOrder p body = .ok a) :
    (s.submitMarket p.expStr a body).2.market.tape = s.market.tape ∨
      ∃ r, Accepted s (s.submitMarket p.expStr a body).2 (.market p body) a r := by
  obtain ⟨hexp, hu, -⟩ := checkMarketOrder_ok hc
  rcases submitMarket_cases hg.fresh p.expStr a body with ⟨x, he, hi⟩ | ⟨r, x, he, -, hs⟩
  · rw [he]
    exact .inl hi.tape
  · have hpos := hs.filled.matched.positive
    obtain ⟨hr, -⟩ := acceptMarket_recorded (s := s) (x := x) (a := a) p.expStr body.side hpos
    have hann : Announced s.deltas (s.acceptMarket p.expStr a body.side r x)
        (symbolOf a.underlying p.expStr a.strike a.style) (x.symbols a) r :=
      matched_announced (s.withMarket x) _ _ _ _ hpos
    have hkey : (Submission.market p body).key a =
        symbolOf a.underlying p.expStr a.strike a.style := by
      rw [hu]
      rfl
    rw [he]
    refine .inr ⟨r, hexp, hu, hpos, ?_, hkey ▸ hr.data, ?_,
      hs.filled.matched.takers, nofun⟩
    · rw [hr.market]
      exact hs.filled.tape
    · rw [hkey, hr.market]
      exact hann

theorem bulk_accepted (hg : s.Grounded) (item : BulkOrderItem) :
    (s.submitSingleOrder item).2.market.tape = s.market.tape ∨
      ∃ a r, Accepted s (s.submitSingleOrder item).2 (.bulk item) a r := by
  rcases submitSingleOrder_cases s item with ⟨e, hnone, he⟩ | ⟨a, r, hsome, he⟩
  · rw [he]
    exact .inl (placeItem_refused hg.fresh hnone).tape
  · obtain ⟨hl, hs⟩ := placeItem_accepted hg.fresh hsome
    obtain ⟨hfind, hu, hk, hst, -⟩ := locate_ok hl
    have hpos := hs.filled.matched.positive
    have hr := acceptItem_recorded (s := s) (x := (s.market.placeItem item).2) item
      s.market.nextOrderId hu hpos
    have hann := reportLimit_announced (s.withMarket (s.market.placeItem item).2)
      (symbolOf item.underlying item.expiration item.strike item.style) item.underlying a item.side
      item.price hpos
    have hkey : (Submission.bulk item).key a =
        symbolOf item.underlying item.expiration item.strike item.style := by
      rw [← hk, ← hst]
      rfl
    rw [he]
    refine .inr ⟨a, r, ?_, hu, hpos, ?_, hkey ▸ hr.data, ?_,
      hs.filled.matched.takers, ?_⟩
    · rw [getOrCreate_find] at hfind
      exact hfind
    · dsimp only
      rw [hr.market]
      exact hs.filled.tape
    · dsimp only
      rw [hkey, hr.market]
      exact ⟨hann.trades, hann.deltas⟩
    · intro symbol hsym
      refine ⟨itemInfo B (s.market.placeItem item).2.now item s.market.nextOrderId r, ?_, ?_⟩
      · rw [acceptItem_orders]
        simp
      · rw [← Option.some.inj hsym, hk, hst]
        rfl

/-- A submission executes nothing, or it was accepted and followed up. -/
theorem submission_cases (hg : s.Grounded) (sub : Submission) :
    (sub.apply s).market.tape = s.market.tape ∨ ∃ a r, Accepted s (sub.apply s) sub a r := by
  cases sub with
  | limit p body =>
    change (s.addOrder p body).2.market.tape = _ ∨
      ∃ a r, Accepted s (s.addOrder p body).2 (.limit p body) a r
    unfold addOrder
    split
    · exact .inl rfl
    · exact (limit_accepted hg ‹_›).imp_right fun h => ⟨_, h⟩
  | market p body =>
    change (s.submitMarketOrder p body).2.market.tape = _ ∨
      ∃ a r, Accepted s (s.submitMarketOrder p body).2 (.market p body) a r
    unfold submitMarketOrder
    split
    · exact .inl rfl
    · exact (market_accepted hg ‹_›).imp_right fun h => ⟨_, h⟩
  | bulk item => exact bulk_accepted hg item

omit [LawfulUpstream B] in
/-- Every submission is the whole effect of some request. -/
theorem submission_request [F64 F] (s : AppState B F) (sub : Submission) :
    ∃ i : Request F, s.step i = sub.apply s := by
  cases sub with
  | limit p body => exact ⟨.addOrder p body, rfl⟩
  | market p body => exact ⟨.submitMarketOrder p body, rfl⟩
  | bulk item =>
    refine ⟨.bulkSubmitOrders ⟨[item], false⟩, ?_⟩
    change (s.bulkSubmitOrders ⟨[item], false⟩).2 = (s.submitSingleOrder item).2
    unfold bulkSubmitOrders submitAll Batch.finish Batch.next
    cases h : s.submitSingleOrder item with
    | mk res s' => cases res <;> simp [Batch.start, h]

end Submissions

section Keys

/-- The submission executed `e`. -/
def Executed (s : AppState B F) (sub : Submission) (e : Execution) : Prop :=
  ∃ rest, (sub.apply s).market.tape = s.market.tape ++ rest ∧ e ∈ rest

/-- `e` is filed under `key` in the stores and in the trade stream. -/
structure Filed (s : AppState B F) (sub : Submission) (e : Execution) (key : String) : Prop where
  stores : FiledIn (sub.apply s).toMarketData (showTradeId B e.trade.tradeId) key
  event : ∃ ev ∈ (sub.apply s).tradeEvents,
    ev.tradeId = showTradeId B e.trade.tradeId ∧ ev.symbol = key

/-- A fill is filed under the strings of its request; the deltas of the book are published under
the symbol the book was created with. -/
structure Keyed (s : AppState B F) (sub : Submission) (e : Execution) : Prop where
  filed : Filed s sub e (sub.key e.addr)
  underlying : e.addr.underlying = sub.underlying
  segment : sub.ResolvesTo s.market e.addr
  taker : ∀ symbol, sub.takerSymbol s.market e.addr = some symbol → ∃ o,
    (sub.apply s).orders.lookup (showOrderId B e.trade.takerOrderId) = some o ∧ o.symbol = symbol
  deltas : ∃ ds, (sub.apply s).deltas = s.deltas ++ ds ∧
    ∀ d ∈ ds, d.symbol = (sub.apply s).market.symbols e.addr

variable [LawfulUpstream B] {sub sub' : Submission} {e e' : Execution}

theorem Executed.keyed (hg : s.Grounded) (he : Executed s sub e) (hp : e.trade.price < 2 ^ 64) :
    Keyed s sub e := by
  obtain ⟨rest, htape, hmem⟩ := he
  rcases submission_cases hg sub with hsame | ⟨a, r, hacc⟩
  · rw [hsame] at htape
    have hnil : rest = [] := by simpa using htape
    rw [hnil] at hmem
    cases hmem
  · have hrest : rest = r.trades.map fun t => ⟨a, sub.side, t⟩ :=
      List.append_cancel_left (htape.symm.trans hacc.tape)
    rw [hrest] at hmem
    obtain ⟨t, ht, rfl⟩ := List.mem_map.mp hmem
    refine ⟨⟨?_, hacc.announced.trades t ht hp⟩, hacc.underlying, hacc.resolves, ?_,
      hacc.announced.deltas⟩
    · rw [hacc.data]
      exact recordAll_filed ht hp
    · intro symbol hsym
      rw [hacc.takers t ht]
      exact hacc.taker symbol hsym

omit [LawfulUpstream B] in
theorem Keyed.no_dash (hd : Dated B) (hl : s.Listed) (h : Keyed s sub e) :
    '-' ∉ sub.segment.toList := by
  have hseg := h.segment
  cases sub with
  | limit p body => exact parseExpiration_no_dash hseg
  | market p body => exact parseExpiration_no_dash hseg
  | bulk item => exact find_no_dash hd hl hseg

omit [LawfulUpstream B] in
/-- Two fills share their key exactly when their requests wrote the same underlying, segment,
strike and style. -/
theorem Keyed.key_eq_iff (hd : Dated B) (hl : s.Listed) (hl' : s'.Listed) (h : Keyed s sub e)
    (h' : Keyed s' sub' e') : sub.key e.addr = sub'.key e'.addr ↔
      sub.underlying = sub'.underlying ∧ sub.segment = sub'.segment ∧
        e.addr.strike = e'.addr.strike ∧ e.addr.style = e'.addr.style :=
  symbolOf_inj (h.no_dash hd hl) (h'.no_dash hd hl')

variable [F64 F] {ok : AppState B F → Request F → Prop}

end Keys

section Reference

/-- Buy one unit of the call 30 days out, the days written as `expStr`. -/
def buyOne (expStr : String) : Submission :=
  .limit ⟨"BTC", expStr, 10000, "call"⟩ ⟨.buy, 100, 1, none, none⟩

/-- An ask of five, and one unit of it bought. -/
def oneBought : List (Request ℚ) :=
  relativeOrder ++ [.addOrder ⟨"BTC", "30", 10000, "call"⟩ ⟨.buy, 100, 1, none, none⟩]

theorem buyOne_executed : Executed (relativeOrder.foldl step reference) (buyOne "30")
    ⟨btcCall, .buy, 0, 1, 0, 100, 1, 0⟩ :=
  ⟨[⟨btcCall, .buy, 0, 1, 0, 100, 1, 0⟩], by decide +kernel, List.mem_singleton.mpr rfl⟩

theorem buyOne_executed_again : Executed (oneBought.foldl step reference) (buyOne "+30")
    ⟨btcCall, .buy, 1, 2, 0, 100, 1, 0⟩ :=
  ⟨[⟨btcCall, .buy, 1, 2, 0, 100, 1, 0⟩], by decide +kernel, List.mem_singleton.mpr rfl⟩

end Reference
end AppState
end OptionChainBackend
