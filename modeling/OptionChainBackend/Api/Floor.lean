import OptionChainBackend.Api.FillKeys
import OptionChainBackend.Api.Recording
import OptionChainBackend.Foundation.Alongside

/-!
Submissions from any number of requests at once. A match is one step of its book; the writes its
fills call for are made one at a time afterwards, between those of other requests and while the
books go on trading.
-/
namespace OptionChainBackend
open Foundation Upstream MarketMaker Exchange

/-- The books and the stores, with the calls that are still writing. `entered` and `unreported` are
history: the calls of `record_fills` so far, and the ids of the orders whose fills no one records. -/
structure Floor (B : Type) where
  market : Exchange B
  recorders : Recorders
  entered : List FillCall
  unreported : List OrderId

/-- What one request does next. A quote of the market maker and the replacement of a modified order
are placed without a record of what they trade on arrival. -/
inductive FloorStep where
  | limit (expStr : String) (a : OptionAddr) (side : Side) (price quantity : ℕ) (tif : TimeInForce)
  | market (expStr : String) (a : OptionAddr) (side : Side) (quantity : ℕ)
  | place (a : OptionAddr) (side : Side) (price quantity : ℕ)
  | cancel (a : OptionAddr) (id : OrderId)
  | tick (ms : ℕ)
  | turn (i : ℕ)
  deriving DecidableEq

/-- The call of `record_fills` that follows a match. -/
def matchCall (B : Type) [Upstream B] (expStr : String) (a : OptionAddr) (side : Side)
    (r : MatchResult) : FillCall :=
  ⟨symbolOf a.underlying expStr a.strike a.style, a.underlying, side,
    if 0 < r.executedQuantity then executedFills B r else []⟩

namespace Floor
variable {B : Type} [Upstream B]

def opening : Floor B := ⟨.init, ⟨⟨.empty, []⟩, []⟩, [], []⟩

/-- A submission got its answer from the book; what it executed is now to be recorded. -/
def enter (f : Floor B) (expStr : String) (a : OptionAddr) (side : Side)
    (out : Except String MatchResult × Exchange B) : Floor B :=
  match out with
  | (.error _, x) => { f with market := x }
  | (.ok r, x) =>
    let call := matchCall B expStr a side r
    { f with
      market := x
      recorders := f.recorders.start call.writes
      entered := f.entered ++ [call] }

def step (f : Floor B) : FloorStep → Floor B
  | .limit expStr a side price quantity tif =>
    let (id, x) := (f.market.openBook a).newOrderId
    f.enter expStr a side (x.addLimitOrderWithTif a id side price quantity tif)
  | .market expStr a side quantity =>
    let (id, x) := (f.market.openBook a).newOrderId
    f.enter expStr a side (x.submitMarketOrder a id quantity side)
  | .place a side price quantity =>
    let (id, x) := f.market.newOrderId
    { f with
      market := (x.addLimitOrder a id side price quantity).2
      unreported := f.unreported ++ [id] }
  | .cancel a id => { f with market := (f.market.cancelOrder a id).2 }
  | .tick ms => { f with market := f.market.tick ms }
  | .turn i => { f with recorders := f.recorders.advance i }

def recordings (f : Floor B) : Recordings := f.recorders.shared.state

/-- Every request has made all its writes. -/
def AtRest (f : Floor B) : Prop := f.recorders.Returned

instance (f : Floor B) : Decidable f.AtRest := inferInstanceAs (Decidable f.recorders.Returned)

/-- What the requests so far have executed and are to record, call after call. -/
def toRecord (f : Floor B) : List FillEntry := f.entered.flatMap FillCall.recordable

/-- A trade the submitting request records. -/
def records (f : Floor B) (e : Execution) : Bool :=
  e.trade.price < 2 ^ 64 ∧ e.trade.takerOrderId ∉ f.unreported

end Floor

/-- The entry a trade is recorded by. -/
structure Execution.EnteredAs (B : Type) [Upstream B] (e : Execution) (entry : FillEntry) : Prop where
  fill : entry.fill = fillOf B e.trade
  side : entry.side = e.takerSide
  price : e.trade.price < 2 ^ 64
  symbol : ∃ segment, entry.symbol =
    symbolOf e.addr.underlying segment e.addr.strike e.addr.style

theorem Execution.EnteredAs.recordedAs {B : Type} [Upstream B] {e : Execution}
    {entry : FillEntry} (h : e.EnteredAs B entry) : e.RecordedAs B entry.id entry.execution where
  id := by
    show entry.fill.tradeId = _
    rw [h.fill]
    rfl
  price := h.price
  info := by
    obtain ⟨segment, hs⟩ := h.symbol
    refine ⟨segment, ?_⟩
    rw [← hs, ← h.fill, ← h.side]
    rfl

namespace Floor
variable {B : Type} [Upstream B] {f f' : Floor B} {expStr : String} {a : OptionAddr} {side : Side}
  {limit : Option ℕ} {q : ℕ} {r : MatchResult} {left : Option RestingOrder}

/-- What holds in every state reached: the entries to record are, one for one, the trades that are
recorded at all. -/
structure Kept (f : Floor B) : Prop where
  fresh : f.market.Fresh
  numbered : f.market.Numbered
  issued : ∀ i ∈ f.unreported, i < f.market.nextOrderId
  keeps : Journal.Keeps .write .empty (f.entered.map FillCall.writes) f.recorders
  entered : List.Forall₂ (Execution.EnteredAs B) (f.market.tape.filter f.records) f.toRecord

theorem opening_kept [LawfulUpstream B] : (opening : Floor B).Kept where
  fresh := init_fresh
  numbered := rfl
  issued := by simp [opening]
  keeps := .fresh _ _
  entered := .nil

/-- Nothing more went unreported but the order of the next id, which is issued now. -/
def Notes (f f' : Floor B) : Prop :=
  f'.unreported = f.unreported ∨ f'.unreported = f.unreported ++ [f.market.nextOrderId] ∧
    f.market.nextOrderId < f'.market.nextOrderId

theorem Kept.issued_after (h : f.Kept) (hn : Notes f f')
    (hnext : f.market.nextOrderId ≤ f'.market.nextOrderId) :
    ∀ i ∈ f'.unreported, i < f'.market.nextOrderId := by
  intro i hi
  rcases hn with hn | ⟨hn, hlt⟩
  · exact (h.issued i (hn ▸ hi)).trans_le hnext
  · rw [hn] at hi
    rcases List.mem_append.mp hi with hi | hi
    · exact (h.issued i hi).trans_le hnext
    · rw [List.mem_singleton.mp hi]
      exact hlt

/-- The trades so far are recorded, or not, as before. -/
theorem Kept.records_after (h : f.Kept) (hn : Notes f f') :
    f.market.tape.filter f'.records = f.market.tape.filter f.records := by
  apply List.filter_congr
  intro e he
  have hne : e.trade.takerOrderId ≠ f.market.nextOrderId := (h.fresh.taped e he).1.ne
  unfold records
  rcases hn with hn | ⟨hn, -⟩
  · rw [hn]
  · simp [hn, hne]

/-- The books changed without a trade. -/
theorem Kept.quiet (h : f.Kept) (hfresh : f'.market.Fresh) (htape : f'.market.tape = f.market.tape)
    (hids : f'.market.nextTradeId = f.market.nextTradeId)
    (hnext : f.market.nextOrderId ≤ f'.market.nextOrderId)
    (hrecorders : f'.recorders = f.recorders) (hentered : f'.entered = f.entered)
    (hn : Notes f f') : f'.Kept where
  fresh := hfresh
  numbered := h.numbered.same htape hids
  issued := h.issued_after hn hnext
  keeps := by
    rw [hrecorders, hentered]
    exact h.keeps
  entered := by
    unfold toRecord
    rw [htape, hentered, h.records_after hn]
    exact h.entered

theorem Kept.turn (h : f.Kept) (i : ℕ) : (f.step (.turn i)).Kept where
  fresh := h.fresh
  numbered := h.numbered
  issued := h.issued
  keeps := h.keeps.advance i
  entered := h.entered

/-- The trades of the match, and the entries of its call. -/
theorem matchCall_entered (hs : Submitted f.market f'.market a side limit q r left)
    (hissued : f.market.nextOrderId ∉ f.unreported) :
    List.Forall₂ (Execution.EnteredAs B)
      ((r.trades.map fun t => (⟨a, side, t⟩ : Execution)).filter f.records)
      (matchCall B expStr a side r).recordable := by
  have hfills : (matchCall B expStr a side r).fills = executedFills B r := by
    unfold matchCall
    split_ifs with hq
    · rfl
    · have hnil : r.trades = [] := by
        refine List.eq_nil_iff_forall_not_mem.mpr fun t ht => hq ?_
        exact (hs.filled.matched.positive t ht).trans_le
          (List.le_sum_of_mem (List.mem_map_of_mem ht))
      simp [executedFills, hnil]
  have htakers : ∀ t ∈ r.trades, t.takerOrderId = f.market.nextOrderId :=
    hs.filled.matched.takers
  unfold FillCall.recordable FillCall.entries
  rw [hfills, executedFills, List.map_map]
  generalize r.trades = trades at htakers
  induction trades with
  | nil => exact .nil
  | cons t trades ih =>
    have htail := ih fun t' ht' => htakers t' (List.mem_cons_of_mem t ht')
    have htaker := htakers t List.mem_cons_self
    have hrec : f.records ⟨a, side, t⟩ = decide (t.price < 2 ^ 64) := by
      unfold records
      simp only [htaker, hissued, not_false_eq_true, and_true]
    rw [List.map_cons, List.map_cons, List.filter_cons, List.filter_cons, hrec]
    simp only [decide_eq_true_eq, Function.comp_apply]
    split_ifs with hp
    · exact .cons ⟨rfl, rfl, hp, expStr, rfl⟩ htail
    · exact htail

/-- A match whose fills are recorded. -/
theorem Kept.recorded (h : f.Kept) (hs : Submitted f.market f'.market a side limit q r left)
    (hrecorders : f'.recorders = f.recorders.start (matchCall B expStr a side r).writes)
    (hentered : f'.entered = f.entered ++ [matchCall B expStr a side r])
    (hunreported : f'.unreported = f.unreported) : f'.Kept := by
  have hissued : f.market.nextOrderId ∉ f.unreported := by
    intro hi
    exact absurd (h.issued _ hi) (Nat.lt_irrefl _)
  have hrec : f'.records = f.records := by
    unfold records
    rw [hunreported]
  refine ⟨(hs.wanes h.fresh).fresh, h.numbered.submitted hs, ?_, ?_, ?_⟩
  · exact h.issued_after (.inl hunreported) (hs.wanes h.fresh).next
  · rw [hrecorders, hentered, List.map_append]
    exact h.keeps.start _
  · unfold toRecord
    rw [hs.filled.tape, hrec, hentered, List.filter_append, List.flatMap_append]
    apply List.rel_append h.entered
    simpa using matchCall_entered hs hissued

/-- A match that no one records. -/
theorem Kept.placed (h : f.Kept) (hs : Submitted f.market f'.market a side limit q r left)
    (hrecorders : f'.recorders = f.recorders) (hentered : f'.entered = f.entered)
    (hunreported : f'.unreported = f.unreported ++ [f.market.nextOrderId]) : f'.Kept := by
  have hnotes : Notes f f' := .inr ⟨hunreported, hs.nextOrderId ▸ Nat.lt_succ_self _⟩
  have hnew : (r.trades.map fun t => (⟨a, side, t⟩ : Execution)).filter f'.records = [] := by
    rw [List.filter_eq_nil_iff]
    intro e he
    obtain ⟨t, ht, rfl⟩ := List.mem_map.mp he
    have htaker : t.takerOrderId = f.market.nextOrderId := hs.filled.matched.takers t ht
    simp [records, hunreported, htaker]
  have htape : f'.market.tape = f.market.tape ++ r.trades.map fun t => ⟨a, side, t⟩ :=
    hs.filled.tape
  refine ⟨(hs.wanes h.fresh).fresh, h.numbered.submitted hs, ?_, ?_, ?_⟩
  · exact h.issued_after hnotes (hs.wanes h.fresh).next
  · rw [hrecorders, hentered]
    exact h.keeps
  · unfold toRecord
    rw [htape, hentered, List.filter_append, h.records_after hnotes, hnew, List.append_nil]
    exact h.entered

/-- A submission is refused by its book or matched on it. -/
theorem Kept.enter (h : f.Kept) {out : Except String MatchResult × Exchange B}
    (hout : (∃ e x, out = (.error e, x) ∧ Idle f.market x) ∨
      ∃ r x limit q left, out = (.ok r, x) ∧ Submitted f.market x a side limit q r left) :
    (f.enter expStr a side out).Kept := by
  rcases hout with ⟨e, x, rfl, hidle⟩ | ⟨r, x, limit, q, left, rfl, hs⟩
  · exact h.quiet (h.fresh.quiet hidle.toQuiet) hidle.tape hidle.nextTradeId hidle.nextOrderId rfl
      rfl (.inl rfl)
  · exact h.recorded hs rfl rfl rfl

section Steps
variable [LawfulUpstream B]

theorem Kept.place (h : f.Kept) (a : OptionAddr) (side : Side) (price quantity : ℕ) :
    (f.step (.place a side price quantity)).Kept := by
  have hmarket : (f.step (.place a side price quantity)).market =
      (f.market.newOrderId.2.addLimitOrderWithTif a f.market.nextOrderId side price quantity
        .gtc).2 := rfl
  rcases addLimit_cases h.fresh a side price quantity .gtc with
    ⟨e, x, he, hidle⟩ | ⟨r, x, he, hs, -⟩
  · have hnext : (f.step (.place a side price quantity)).market.nextOrderId =
        f.market.nextOrderId + 1 := rfl
    rw [he] at hmarket
    apply h.quiet
    · rw [hmarket]
      exact h.fresh.quiet hidle.toQuiet
    · rw [hmarket]
      exact hidle.tape
    · rw [hmarket]
      exact hidle.nextTradeId
    · rw [hnext]
      exact Nat.le_succ _
    · rfl
    · rfl
    · exact .inr ⟨rfl, hnext ▸ Nat.lt_succ_self _⟩
  · rw [he] at hmarket
    obtain rfl : (f.step (.place a side price quantity)).market = x := hmarket
    exact h.placed hs rfl rfl rfl

theorem Kept.step (h : f.Kept) (i : FloorStep) : (f.step i).Kept := by
  cases i with
  | limit expStr a side price quantity tif =>
    have hopen := openBook_idle f.market a
    obtain ⟨hb, hn⟩ := openBook_books f.market a
    apply h.enter
    rcases addLimit_cases (h.fresh.quiet hopen.toQuiet) a side price quantity tif with
      ⟨e, x, he, hidle⟩ | ⟨r, x, he, hs, -⟩
    · exact .inl ⟨e, x, he, hopen.trans hidle⟩
    · exact .inr ⟨r, x, _, _, _, he, hs.of_idle hopen hb hn⟩
  | market expStr a side quantity =>
    have hopen := openBook_idle f.market a
    obtain ⟨hb, hn⟩ := openBook_books f.market a
    apply h.enter
    rcases market_cases (h.fresh.quiet hopen.toQuiet) a side quantity with
      ⟨e, x, he, hidle⟩ | ⟨r, x, he, hs⟩
    · exact .inl ⟨e, x, he, hopen.trans hidle⟩
    · exact .inr ⟨r, x, _, _, _, he, hs.of_idle hopen hb hn⟩
  | place a side price quantity => exact h.place a side price quantity
  | cancel a id =>
    have hwanes := cancelOrder_wanes h.fresh a id
    exact h.quiet hwanes.fresh rfl rfl hwanes.next rfl rfl (.inl rfl)
  | tick ms =>
    exact h.quiet (h.fresh.shrunk (tick_shrunk _ _)) rfl rfl le_rfl rfl rfl (.inl rfl)
  | turn i => exact h.turn i

theorem reaches_kept (h : Reaches (Eq opening) step (fun _ _ => True) f) : f.Kept :=
  h.invariant (fun _ h0 => h0 ▸ opening_kept) fun _ i hk _ => hk.step i

end Steps

section Entries
variable {e : Execution} {entry : FillEntry} {info : ExecutionInfo} {id : String} {store : Store}

theorem Kept.toRecord_ids (h : f.Kept) : f.toRecord.map FillEntry.id =
    (f.market.tape.filter f.records).map fun e => showTradeId B e.trade.tradeId :=
  forall₂_map_eq h.entered.flip fun _ _ he => he.recordedAs.id

/-- An entry is that of a trade on the tape. -/
theorem Kept.traded (h : f.Kept) (he : entry ∈ f.toRecord) :
    ∃ e ∈ f.market.tape, f.records e = true ∧ e.EnteredAs B entry := by
  obtain ⟨e, hmem, has⟩ := forall₂_exists_left h.entered he
  obtain ⟨htape, hrec⟩ := List.mem_filter.mp hmem
  exact ⟨e, htape, hrec, has⟩

/-- What was written to a store so far is some of what is to be recorded, each entry once. -/
theorem Kept.written (h : f.Kept) (store : Store) : ∃ rest,
    (Recordings.orderAt f.recorders.shared.log store ++ rest).Perm f.toRecord := by
  have hperm := (h.keeps.merges.filterMap (Write.inStore store)).perm
  rw [Recorders.writes_inStore] at hperm
  exact ⟨_, hperm⟩

theorem Kept.written_mem (h : f.Kept)
    (he : entry ∈ Recordings.orderAt f.recorders.shared.log store) : entry ∈ f.toRecord := by
  obtain ⟨rest, hperm⟩ := h.written store
  exact hperm.subset (List.mem_append_left _ he)

theorem Kept.written_whole (h : f.Kept) (hrest : f.AtRest) (store : Store) :
    (Recordings.orderAt f.recorders.shared.log store).Perm f.toRecord :=
  (Recorders.Keeps.orders h.keeps hrest store).perm

theorem Kept.stores (h : f.Kept) : Recorders.AsIfInTurn .empty f.recordings
    (Recordings.orderAt f.recorders.shared.log) := by
  unfold recordings
  rw [h.keeps.state]
  exact Recorders.writes_asIfInTurn _ _

theorem Kept.stream (h : f.Kept) : f.recordings.tradeEvents.map TradeEvent.tradeId =
    (Recordings.orderAt f.recorders.shared.log .stream).map FillEntry.id := by
  rw [h.stores.stream, List.map_append, List.map_map]
  rfl

variable [LawfulUpstream B]

theorem Kept.toRecord_nodup (h : f.Kept) : (f.toRecord.map FillEntry.id).Nodup := by
  have hids : (f.market.tape.filter f.records).map (fun e => showTradeId B e.trade.tradeId) =
      ((f.market.tape.filter f.records).map fun e => e.trade.tradeId).map (showTradeId B) := by
    simp [Function.comp_def]
  rw [h.toRecord_ids, hids]
  exact (h.numbered.nodup.sublist (List.filter_sublist.map _)).map
    LawfulUpstream.showTradeId_injective

theorem Kept.written_nodup (h : f.Kept) (store : Store) :
    ((Recordings.orderAt f.recorders.shared.log store).map FillEntry.id).Nodup := by
  obtain ⟨rest, hperm⟩ := h.written store
  have hnodup := ((hperm.map FillEntry.id).nodup_iff).mpr h.toRecord_nodup
  rw [List.map_append] at hnodup
  exact hnodup.of_append_left

theorem Kept.executions (h : f.Kept) : f.recordings.executions.lookup id = some info ↔
    ∃ entry ∈ Recordings.orderAt f.recorders.shared.log .execution,
      entry.id = id ∧ entry.execution = info := by
  rw [h.stores.executions]
  exact MarketData.posted_execution (h.written_nodup .execution)

end Entries

/-- No store claims more than what was traded. -/
structure Truthful (f : Floor B) : Prop where
  executed : ∀ id info, f.recordings.executions.lookup id = some info →
    ∃ e ∈ f.market.tape, f.records e = true ∧ e.RecordedAs B id info
  streamed : ∀ id ∈ f.recordings.tradeEvents.map TradeEvent.tradeId,
    ∃ e ∈ f.market.tape, f.records e = true ∧ id = showTradeId B e.trade.tradeId
  streamedOnce : (f.recordings.tradeEvents.map TradeEvent.tradeId).Nodup

theorem Kept.truthful [LawfulUpstream B] (h : f.Kept) : f.Truthful where
  executed id info hl := by
    obtain ⟨entry, hentry, rfl, rfl⟩ := h.executions.mp hl
    obtain ⟨e, he, hr, has⟩ := h.traded (h.written_mem hentry)
    exact ⟨e, he, hr, has.recordedAs⟩
  streamed id hid := by
    rw [h.stream] at hid
    obtain ⟨entry, hentry, rfl⟩ := List.mem_map.mp hid
    obtain ⟨e, he, hr, has⟩ := h.traded (h.written_mem hentry)
    exact ⟨e, he, hr, has.recordedAs.id⟩
  streamedOnce := by
    rw [h.stream]
    exact h.written_nodup .stream

/-- The position a trade went to: the symbol of its execution. -/
def filedUnder (f : Floor B) (e : Execution) : Option String :=
  (f.recordings.executions.lookup (showTradeId B e.trade.tradeId)).map ExecutionInfo.symbol

/-- The trades filed under a key, in the order they executed. -/
def filed (f : Floor B) (key : String) : List Execution :=
  f.market.tape.filter fun e => f.filedUnder e = some key

/-- The stores hold every trade that is recorded at all, each once. -/
structure Booked (f : Floor B) : Prop where
  recorded : ∀ e ∈ f.market.tape, f.records e = true →
    ∃ info, f.recordings.executions.lookup (showTradeId B e.trade.tradeId) = some info ∧
      e.RecordedAs B (showTradeId B e.trade.tradeId) info
  streamed : (f.recordings.tradeEvents.map TradeEvent.tradeId).Perm
    ((f.market.tape.filter f.records).map fun e => showTradeId B e.trade.tradeId)
  positions : f.market.volume < 2 ^ 63 → ∀ key, f.recordings.held key =
    ((f.filed key).map Execution.amount).sum
  lastTrades : ∀ key, f.filed key ≠ [] → ∃ e ∈ f.filed key,
    (f.recordings.lastTrades.lookup key).map LastTradeInfo.tradeId =
      some (showTradeId B e.trade.tradeId)
  volumes : f.market.volume < 2 ^ 63 → ∀ key i,
    ((f.filed key).map fun e => i.floorTimestamp (e.trade.timestamp / 1000)).dedup.length ≤
      maxBarsPerSeries →
    OhlcSeries.volume ((f.recordings.ohlc.lookup (key, i)).getD []) =
      ((f.filed key).map fun e => e.trade.quantity).sum

section AtRest
variable [LawfulUpstream B] {key : String} {store : Store}

/-- Side by side: the trades that are recorded and their entries, each trade filed under the symbol
of its entry. -/
theorem Kept.filed_entered (h : f.Kept) (hrest : f.AtRest) :
    List.Forall₂ (fun e entry => e.EnteredAs B entry ∧ f.filedUnder e = some entry.symbol)
      (f.market.tape.filter f.records) f.toRecord := by
  refine (forall₂_with_mem h.entered).imp ?_
  rintro e entry ⟨has, -, hentry⟩
  have hmem := (h.written_whole hrest .execution).mem_iff.mpr hentry
  have hlookup := h.executions.mpr ⟨entry, hmem, has.recordedAs.id, rfl⟩
  refine ⟨has, ?_⟩
  unfold filedUnder
  rw [hlookup]
  rfl

theorem Kept.records_of_filed (h : f.Kept) {e : Execution} (he : e ∈ f.market.tape)
    (hk : f.filedUnder e = some key) : f.records e = true := by
  obtain ⟨info, hl, -⟩ := Option.map_eq_some_iff.mp hk
  obtain ⟨e', he', hr, has⟩ := h.truthful.executed _ _ hl
  have hid : e'.trade.tradeId = e.trade.tradeId :=
    (LawfulUpstream.showTradeId_injective has.id).symm
  obtain rfl : e' = e := List.inj_on_of_nodup_map h.numbered.nodup he' he hid
  exact hr

/-- The trades filed under a key are, one for one, the entries with that symbol. -/
theorem Kept.filed_toRecord (h : f.Kept) (hrest : f.AtRest) (key : String) :
    List.Forall₂ (Execution.EnteredAs B) (f.filed key) (f.toRecord.filter fun e => e.symbol = key) := by
  have hfiled : f.filed key =
      (f.market.tape.filter f.records).filter fun e => f.filedUnder e = some key := by
    unfold filed
    rw [List.filter_filter]
    apply List.filter_congr
    intro e he
    by_cases hk : f.filedUnder e = some key
    · simp [hk, h.records_of_filed he hk]
    · simp [hk]
  rw [hfiled]
  refine (forall₂_filter (h.filed_entered hrest) ?_).imp fun _ _ h => h.1
  rintro e entry ⟨-, hk⟩
  simp [hk]

theorem Kept.fillsOf_toRecord (h : f.Kept) (hrest : f.AtRest) (key : String) :
    fillsOf f.toRecord key = (f.filed key).map fun e => fillOf B e.trade :=
  forall₂_map_eq (h.filed_toRecord hrest key).flip fun _ _ he => he.fill

theorem Kept.netOf_toRecord (h : f.Kept) (hrest : f.AtRest) (key : String) :
    netOf f.toRecord key = ((f.filed key).map Execution.amount).sum := by
  unfold netOf total
  congr 1
  refine forall₂_map_eq (h.filed_toRecord hrest key).flip fun _ _ he => ?_
  rw [he.side, he.fill]
  rfl

theorem Kept.quantityOf_le (h : f.Kept) (hrest : f.AtRest) (key : String) :
    quantityOf f.toRecord key ≤ f.market.volume := by
  unfold quantityOf volume
  rw [h.fillsOf_toRecord hrest, List.map_map]
  exact (List.filter_sublist.map fun e : Execution => e.trade.quantity).sum_le_sum (by simp)

theorem fillsOf_perm {log log' : List FillEntry} (h : log.Perm log') (key : String) :
    (fillsOf log key).Perm (fillsOf log' key) := (h.filter _).map _

theorem quantityOf_perm {log log' : List FillEntry} (h : log.Perm log') (key : String) :
    quantityOf log key = quantityOf log' key := ((fillsOf_perm h key).map _).sum_eq

/-- Its last trade is one of those filed under the key. -/
theorem Kept.lastTrade (h : f.Kept) (hrest : f.AtRest) (hne : f.filed key ≠ []) :
    ∃ e ∈ f.filed key, (f.recordings.lastTrades.lookup key).map LastTradeInfo.tradeId =
      some (showTradeId B e.trade.tradeId) := by
  have hside := h.filed_toRecord hrest key
  have hperm := (h.written_whole hrest .lastTrade).filter fun e => e.symbol = key
  have hlog : (Recordings.orderAt f.recorders.shared.log .lastTrade).filter
      (fun e => e.symbol = key) ≠ [] := by
    intro hnil
    have hlen := hside.length_eq.trans hperm.length_eq.symm
    rw [hnil] at hlen
    exact hne (List.length_eq_zero_iff.mp hlen)
  have hlast := List.getLast?_eq_getLast_of_ne_nil hlog
  obtain ⟨e, he, has⟩ := forall₂_exists_left hside (hperm.subset (List.getLast_mem hlog))
  refine ⟨e, he, ?_⟩
  have hposted : f.recordings.lastTrades.lookup key =
      (((Recordings.orderAt f.recorders.shared.log .lastTrade).filter
        fun e => e.symbol = key).getLast?).map FillEntry.lastTrade := by
    rw [h.stores.lastTrades]
    exact MarketData.posted_lastTrade
  rw [hposted, hlast, ← has.recordedAs.id]
  rfl

theorem Kept.volume (h : f.Kept) (hrest : f.AtRest) (hv : f.market.volume < 2 ^ 63)
    {i : OhlcInterval} (hcap : ((f.filed key).map fun e =>
      i.floorTimestamp (e.trade.timestamp / 1000)).dedup.length ≤ maxBarsPerSeries) :
    OhlcSeries.volume ((f.recordings.ohlc.lookup (key, i)).getD []) =
      ((f.filed key).map fun e => e.trade.quantity).sum := by
  let log := Recordings.orderAt f.recorders.shared.log (.bars i)
  have hfills := h.fillsOf_toRecord hrest key
  have hperm : (fillsOf log key).Perm (fillsOf f.toRecord key) :=
    fillsOf_perm (h.written_whole hrest (.bars i)) key
  have hsum : quantityOf log key = ((f.filed key).map fun e => e.trade.quantity).sum := by
    unfold quantityOf
    rw [(hperm.map _).sum_eq, hfills, List.map_map]
    rfl
  have hle : quantityOf log key ≤ f.market.volume :=
    (quantityOf_perm (h.written_whole hrest (.bars i)) key).trans_le (h.quantityOf_le hrest key)
  have htimes : (barTimes i (fillsOf log key)).length ≤ maxBarsPerSeries := by
    have heq := ((hperm.map (barTime i)).dedup).length_eq
    rw [hfills, List.map_map] at heq
    exact heq.trans_le hcap
  have hseries : (f.recordings.ohlc.lookup (key, i)).getD [] = seriesOf i (fillsOf log key) := by
    rw [h.stores.bars]
    exact MarketData.posted_series i
  rw [hseries, seriesOf_volume htimes, ← hsum]
  · rfl
  · unfold quantityOf at hle
    omega

theorem Kept.booked (h : f.Kept) (hrest : f.AtRest) : f.Booked where
  recorded e he hr := by
    obtain ⟨entry, hentry, has⟩ := forall₂_exists_right h.entered (List.mem_filter.mpr ⟨he, hr⟩)
    have hmem := (h.written_whole hrest .execution).mem_iff.mpr hentry
    have hid := has.recordedAs.id
    exact ⟨entry.execution, h.executions.mpr ⟨entry, hmem, hid, rfl⟩, hid ▸ has.recordedAs⟩
  streamed := by
    rw [h.stream, ← h.toRecord_ids]
    exact (h.written_whole hrest .stream).map _
  positions hv key := by
    have hperm := h.written_whole hrest .position
    have hq := h.quantityOf_le hrest key
    have hheld : f.recordings.held key =
        netOf (Recordings.orderAt f.recorders.shared.log .position) key := by
      unfold MarketData.held
      rw [h.stores.positions]
      exact MarketData.posted_held ((quantityOf_perm hperm key).trans_lt (hq.trans_lt hv))
    rw [hheld, ← h.netOf_toRecord hrest]
    exact ((hperm.filter _).map _).sum_eq
  lastTrades key hne := h.lastTrade hrest hne
  volumes hv key i hcap := h.volume hrest hv hcap

end AtRest

section Reference

/-- An ask of five, two buyers of it at once, and the ask withdrawn while they are still writing. -/
def twoBuyers : List FloorStep :=
  [.limit "30" btcCall .sell 100 5 .gtc, .limit "30" btcCall .buy 100 2 .gtc,
    .market "30" btcCall .buy 2, .turn 1, .turn 2, .turn 2, .cancel btcCall 0] ++
    List.replicate 8 (.turn 2) ++ List.replicate 9 (.turn 1)

end Reference

section Alone
variable {F : Type} {s : AppState B F}

/-- The writes of a call that began last, one after the other. -/
theorem turns_alone (calls : List (List Write)) (row : List Write) (j : Journal Recordings Write)
    (hf : f.recorders = ⟨j, calls ++ [row]⟩) :
    let f' := (List.replicate row.length (FloorStep.turn calls.length)).foldl step f
    f'.market = f.market ∧
      f'.recorders = ⟨⟨row.foldl .write j.state, j.log ++ row⟩, calls ++ [[]]⟩ := by
  have hturns : ∀ (is : List ℕ) (f : Floor B),
      ((is.map FloorStep.turn).foldl step f).market = f.market ∧
      ((is.map FloorStep.turn).foldl step f).recorders = is.foldl .advance f.recorders := by
    intro is
    induction is with
    | nil => exact fun f => ⟨rfl, rfl⟩
    | cons i is ih => exact fun f => ih (f.step (.turn i))
  have hmap : List.replicate row.length (FloorStep.turn calls.length) =
      (List.replicate row.length calls.length).map .turn := by simp
  rw [hmap]
  obtain ⟨hmarket, hrecorders⟩ := hturns (List.replicate row.length calls.length) f
  refine ⟨hmarket, hrecorders.trans ?_⟩
  rw [hf]
  exact Journal.advance_row j calls row

theorem recordMatch_recordings (s : AppState B F) (expStr : String) (a : OptionAddr) (side : Side)
    (r : MatchResult) :
    (s.recordMatch (symbolOf a.underlying expStr a.strike a.style) a.underlying side r).recordings =
      (matchCall B expStr a side r).writes.foldl .write s.recordings := by
  unfold AppState.recordMatch matchCall
  split_ifs
  · exact AppState.recordFills_writes _ _ _ _ _
  · rfl

theorem publishMatch_recordings (s : AppState B F) (a : OptionAddr) (side : Side)
    (r : MatchResult) : (s.publishMatch a side r).recordings = s.recordings := by
  have hdata : (s.publishMatch a side r).toMarketData = s.toMarketData := by
    unfold AppState.publishMatch
    split_ifs <;> rfl
  unfold AppState.recordings
  rw [hdata, (AppState.publishMatch_published s a side r).tradeEvents]

theorem reportLimit_recordings (s : AppState B F) (expStr : String) (a : OptionAddr) (side : Side)
    (price : ℕ) (r : MatchResult) :
    (s.reportLimit (symbolOf a.underlying expStr a.strike a.style) a.underlying a side price
      r).recordings = (matchCall B expStr a side r).writes.foldl .write s.recordings := by
  have hrest : ∀ s : AppState B F, (s.publishRest a side price r).recordings = s.recordings := by
    intro s
    unfold AppState.publishRest
    split_ifs <;> rfl
  unfold AppState.reportLimit
  rw [hrest, publishMatch_recordings, recordMatch_recordings]

/-- A submission with none beside it: the turns of its own call bring it to its end. -/
theorem enter_alone (hrest : f.AtRest) (expStr : String) (a : OptionAddr) (side : Side)
    (out : Except String MatchResult × Exchange B) : ∃ n i,
      let f' := (List.replicate n (FloorStep.turn i)).foldl step (f.enter expStr a side out)
      f'.market = out.2 ∧ f'.AtRest ∧ f'.recordings = match out.1 with
        | .error _ => f.recordings
        | .ok r => (matchCall B expStr a side r).writes.foldl .write f.recordings := by
  obtain ⟨res, x⟩ := out
  cases res with
  | error e => exact ⟨0, 0, rfl, hrest, rfl⟩
  | ok r =>
    obtain ⟨hmarket, hrecorders⟩ := turns_alone (f := f.enter expStr a side (.ok r, x))
      f.recorders.calls (matchCall B expStr a side r).writes f.recorders.shared rfl
    refine ⟨_, _, hmarket, ?_, ?_⟩
    · unfold AtRest
      rw [hrecorders]
      intro row hrow
      rcases List.mem_append.mp hrow with hrow | hrow
      · exact hrest row hrow
      · exact List.mem_singleton.mp hrow
    · unfold recordings
      rw [hrecorders]

/-- A limit order submitted while nothing else is under way leaves the books and the stores as
`add_order` does. -/
theorem limit_alone (hmarket : f.market = s.market) (hstores : f.recordings = s.recordings)
    (hrest : f.AtRest) (expStr : String) (a : OptionAddr) (tif : TimeInForce)
    (body : AddOrderRequest) : ∃ n i,
      let f' := (List.replicate n (FloorStep.turn i)).foldl step
        (f.step (.limit expStr a body.side body.price body.quantity tif))
      let s' := (s.submitLimit expStr a tif body).2
      f'.market = s'.market ∧ f'.AtRest ∧ f'.recordings = s'.recordings := by
  have halone := enter_alone hrest expStr a body.side
    ((s.market.openBook a).newOrderId.2.addLimitOrderWithTif a (s.market.openBook a).newOrderId.1
      body.side body.price body.quantity tif)
  unfold step AppState.submitLimit
  rw [hmarket]
  dsimp only
  cases hout : (s.market.openBook a).newOrderId.2.addLimitOrderWithTif a
      (s.market.openBook a).newOrderId.1 body.side body.price body.quantity tif with
  | mk res x =>
    rw [hout, hstores] at halone
    cases res with
    | error e => exact halone
    | ok r =>
      obtain ⟨n, i, hx, hdone, hrecordings⟩ := halone
      refine ⟨n, i, hx.trans ?_, hdone, hrecordings.trans ?_⟩
      · exact (AppState.reportLimit_reported (s := (s.withMarket x).track _) _ _ _ _ _ _).market.symm
      · exact (reportLimit_recordings ((s.withMarket x).track _) expStr a body.side body.price r).symm

/-- A market order submitted while nothing else is under way does as `submit_market_order` does. -/
theorem market_alone (hmarket : f.market = s.market) (hstores : f.recordings = s.recordings)
    (hrest : f.AtRest) (expStr : String) (a : OptionAddr) (body : MarketOrderRequest) : ∃ n i,
      let f' := (List.replicate n (FloorStep.turn i)).foldl step
        (f.step (.market expStr a body.side body.quantity))
      let s' := (s.submitMarket expStr a body).2
      f'.market = s'.market ∧ f'.AtRest ∧ f'.recordings = s'.recordings := by
  have halone := enter_alone hrest expStr a body.side
    ((s.market.openBook a).newOrderId.2.submitMarketOrder a (s.market.openBook a).newOrderId.1
      body.quantity body.side)
  unfold step AppState.submitMarket
  rw [hmarket]
  dsimp only
  cases hout : (s.market.openBook a).newOrderId.2.submitMarketOrder a
      (s.market.openBook a).newOrderId.1 body.quantity body.side with
  | mk res x =>
    rw [hout, hstores] at halone
    cases res with
    | error e => exact halone
    | ok r =>
      obtain ⟨n, i, hx, hdone, hrecordings⟩ := halone
      have hmatch := AppState.recordMatch_reported (s := s.withMarket x)
        (symbolOf a.underlying expStr a.strike a.style) a.underlying body.side r
      refine ⟨n, i, hx.trans ?_, hdone, hrecordings.trans ?_⟩
      · exact (hmatch.trans (AppState.publishMatch_reported _ _ _)).market.symm
      · refine (recordMatch_recordings (s.withMarket x) expStr a body.side r).symm.trans ?_
        exact (publishMatch_recordings _ a body.side r).symm

end Alone
end Floor
end OptionChainBackend
