import OptionChainBackend.Api.Addressed
import OptionChainBackend.Api.Positions
import OptionChainBackend.Foundation.Postings

/-!
The executions and positions of the process against the trades on its books. A match that is
recorded adds each of its trades once, a match that is not recorded adds nothing, and nothing else
writes the two stores.
-/
namespace OptionChainBackend
open Foundation Upstream MarketMaker Exchange

/-- What the trade adds to a position. -/
def Execution.amount (e : Execution) : ℤ := signed e.takerSide e.trade.quantity

namespace MarketData
variable {m : MarketData} {symbol underlying key id : String} {side : Side}
  {fill : ExecutedFill} {fills : List ExecutedFill} {q : ℕ}

/-- The position under a key; 0 when none is recorded. -/
def held (m : MarketData) (key : String) : ℤ :=
  ((m.positions.lookup key).map PositionInfo.quantity).getD 0

/-- A fill moves the position under its own key by its signed quantity. -/
theorem record_held (hb : (m.held key).natAbs + fill.quantity < 2 ^ 63) :
    (m.record symbol underlying side fill).held key =
      m.held key + if key = symbol then signed side fill.quantity else 0 := by
  have hfill : fillQuantity side fill.quantity = signed side fill.quantity :=
    fillQuantity_eq (by omega)
  have habs := natAbs_signed side fill.quantity
  unfold held at hb ⊢
  simp only [record, updatePositionOnFill, Table.lookup_upsert, hfill]
  split_ifs with hk
  · subst hk
    cases hp : m.positions.lookup key with
    | none => simp
    | some pos =>
      rw [hp] at hb
      simp only [Option.map_some, Option.getD_some] at hb
      simp only [Option.map_some, Option.getD_some, PositionInfo.update_quantity]
      apply saturatingAdd_of_mem
      · unfold i64Min
        omega
      · unfold i64Max
        omega
  · simp

theorem record_executions : (m.record symbol underlying side fill).executions.lookup id =
    if id = fill.tradeId then some (executionInfo symbol side fill)
    else m.executions.lookup id := by
  simp [record, updatePositionOnFill]

/-- The fills of one match, recorded one after the other. -/
def recordRow (m : MarketData) (symbol underlying : String) (side : Side)
    (fills : List ExecutedFill) : MarketData :=
  fills.foldl (fun m fill => if fill.price < 2 ^ 64 then m.record symbol underlying side fill else m)
    m

theorem recordRow_cons : m.recordRow symbol underlying side (fill :: fills) =
    recordRow (if fill.price < 2 ^ 64 then m.record symbol underlying side fill else m) symbol
      underlying side fills := rfl

/-- No other id's execution changes. -/
theorem recordRow_executions_other
    (h : ∀ fill ∈ fills, fill.price < 2 ^ 64 → fill.tradeId ≠ id) :
    (m.recordRow symbol underlying side fills).executions.lookup id = m.executions.lookup id := by
  induction fills generalizing m with
  | nil => rfl
  | cons fill fills ih =>
    rw [recordRow_cons, ih fun f hf => h f (List.mem_cons_of_mem fill hf)]
    split_ifs with hp
    · rw [record_executions, if_neg (h fill List.mem_cons_self hp).symm]
    · rfl

/-- Each fill with a recordable price has its execution, under its own id. -/
theorem recordRow_executions_self (hids : (fills.map ExecutedFill.tradeId).Nodup)
    (hf : fill ∈ fills) (hp : fill.price < 2 ^ 64) :
    (m.recordRow symbol underlying side fills).executions.lookup fill.tradeId =
      some (executionInfo symbol side fill) := by
  induction fills generalizing m with
  | nil => cases hf
  | cons head fills ih =>
    rw [List.map_cons, List.nodup_cons] at hids
    rw [recordRow_cons]
    rcases List.mem_cons.mp hf with rfl | hf
    · rw [recordRow_executions_other, if_pos hp, record_executions, if_pos rfl]
      intro f hmem _ he
      exact hids.1 (List.mem_map.mpr ⟨f, hmem, he⟩)
    · exact ih hids.2 hf

theorem recordRow_held
    (hb : (m.held key).natAbs + (fills.map ExecutedFill.quantity).sum < 2 ^ 63) :
    (m.recordRow symbol underlying side fills).held key = m.held key +
      if key = symbol then total (fun fill => signed side fill.quantity)
        (fun fill => fill.price < 2 ^ 64) fills else 0 := by
  induction fills generalizing m with
  | nil => simp [recordRow]
  | cons fill fills ih =>
    rw [List.map_cons, List.sum_cons] at hb
    have habs := natAbs_signed side fill.quantity
    rw [recordRow_cons, total_cons]
    by_cases hp : fill.price < 2 ^ 64
    · have hone : (m.record symbol underlying side fill).held key =
          m.held key + if key = symbol then signed side fill.quantity else 0 :=
        record_held (by omega)
      have hrest : ((m.record symbol underlying side fill).held key).natAbs +
          (fills.map ExecutedFill.quantity).sum < 2 ^ 63 := by
        rw [hone]
        split_ifs <;> omega
      rw [if_pos hp, ih hrest, hone]
      simp only [hp, decide_true, if_true]
      split_ifs <;> omega
    · rw [if_neg hp, ih (by omega)]
      simp only [hp, decide_false, Bool.false_eq_true, if_false, zero_add]

/-- An execution is an old one or that of a fill. -/
theorem recordRow_executions {info : ExecutionInfo}
    (h : (m.recordRow symbol underlying side fills).executions.lookup id = some info) :
    m.executions.lookup id = some info ∨ ∃ fill ∈ fills, fill.price < 2 ^ 64 ∧
      id = fill.tradeId ∧ info = executionInfo symbol side fill := by
  induction fills generalizing m with
  | nil => exact .inl h
  | cons head fills ih =>
    rw [recordRow_cons] at h
    rcases ih h with h | ⟨fill, hf, hfill⟩
    · split_ifs at h with hp
      · rw [record_executions] at h
        split_ifs at h with hid
        · exact .inr ⟨head, List.mem_cons_self, hp, hid, (Option.some.inj h).symm⟩
        · exact .inl h
      · exact .inl h
    · exact .inr ⟨fill, List.mem_cons_of_mem head hf, hfill⟩

end MarketData

namespace Exchange
variable {B : Type} [Upstream B] {x x' : Exchange B} {a : OptionAddr} {side : Side}
  {limit : Option ℕ} {q : ℕ} {r : MatchResult} {left : Option RestingOrder} {e : Execution}

/-- The trades on the tape have the trade ids issued so far, in order. -/
def Numbered (x : Exchange B) : Prop :=
  x.tape.map (fun e => e.trade.tradeId) = List.range x.nextTradeId

omit [Upstream B] in
theorem Numbered.same (h : x.Numbered) (ht : x'.tape = x.tape)
    (hn : x'.nextTradeId = x.nextTradeId) : x'.Numbered := by
  unfold Numbered
  rw [ht, hn, h]

theorem Numbered.submitted (h : x.Numbered) (hs : Submitted x x' a side limit q r left) :
    x'.Numbered := by
  have hids : r.trades.map Trade.tradeId = List.range' x.nextTradeId r.trades.length :=
    hs.filled.matched.tradeIds
  have htape : x'.tape = x.tape ++ r.trades.map fun t => ⟨a, side, t⟩ := hs.filled.tape
  have hnext : x'.nextTradeId = x.nextTradeId + r.trades.length := hs.filled.nextTradeId
  unfold Numbered at h ⊢
  rw [htape, hnext, List.map_append, h, List.map_map]
  show List.range x.nextTradeId ++ r.trades.map Trade.tradeId = _
  rw [hids, List.range_eq_range', List.range_eq_range', ← List.range'_append_1, Nat.zero_add]

omit [Upstream B] in
theorem Numbered.nodup (h : x.Numbered) : (x.tape.map fun e => e.trade.tradeId).Nodup :=
  h ▸ List.nodup_range

omit [Upstream B] in
theorem Numbered.lt (h : x.Numbered) (he : e ∈ x.tape) : e.trade.tradeId < x.nextTradeId := by
  have hmem : e.trade.tradeId ∈ x.tape.map fun e => e.trade.tradeId := List.mem_map_of_mem he
  rw [h] at hmem
  exact List.mem_range.mp hmem

/-- The quantity executed on all books. -/
def volume (x : Exchange B) : ℕ := (x.tape.map fun e => e.trade.quantity).sum

theorem Submitted.volume (hs : Submitted x x' a side limit q r left) :
    x'.volume = x.volume + (r.trades.map Trade.quantity).sum := by
  unfold Exchange.volume
  rw [hs.filled.tape, List.map_append, List.sum_append, List.map_map]
  rfl

theorem Submitted.trades_nodup (hs : Submitted x x' a side limit q r left) :
    (r.trades.map Trade.tradeId).Nodup := by
  rw [hs.filled.matched.tradeIds]
  exact List.nodup_range'

theorem Submitted.trade_ge (hs : Submitted x x' a side limit q r left) {t : Trade}
    (ht : t ∈ r.trades) : x.nextTradeId ≤ t.tradeId := by
  have hids : r.trades.map Trade.tradeId = List.range' x.nextTradeId r.trades.length :=
    hs.filled.matched.tradeIds
  have hmem : t.tradeId ∈ r.trades.map Trade.tradeId := List.mem_map_of_mem ht
  rw [hids, List.mem_range'_1] at hmem
  exact hmem.1

end Exchange

/-- One trade as a submit path hands it to `record_fills`. -/
def fillOf (B : Type) [Upstream B] (t : Trade) : ExecutedFill :=
  ⟨t.price, t.quantity, t.timestamp, showTradeId B t.tradeId, showOrderId B t.takerOrderId,
    showOrderId B t.makerOrderId⟩

/-- `info` under `id` is the record of the trade, filed under some segment of its book. -/
structure Execution.RecordedAs (B : Type) [Upstream B] (e : Execution) (id : String)
    (info : ExecutionInfo) : Prop where
  id : id = showTradeId B e.trade.tradeId
  price : e.trade.price < 2 ^ 64
  info : ∃ segment, info = MarketData.executionInfo
    (symbolOf e.addr.underlying segment e.addr.strike e.addr.style) e.takerSide (fillOf B e.trade)

namespace AppState
variable {B F : Type} [Upstream B] {s s' : AppState B F} {a : OptionAddr} {side : Side}
  {limit : Option ℕ} {q : ℕ} {r : MatchResult} {left : Option RestingOrder} {symbol key : String}

/-- The position a trade went to: the symbol of its execution. -/
def filedUnder (s : AppState B F) (e : Execution) : Option String :=
  (s.executions.lookup (showTradeId B e.trade.tradeId)).map ExecutionInfo.symbol

/-- The stores against the trades so far. What a replacement traded on arrival is not recorded;
nothing is said of what a quote traded on arrival. -/
structure Ledger (s : AppState B F) : Prop where
  numbered : s.market.Numbered
  issued : ∀ i ∈ s.replacements, i < s.market.nextOrderId
  executed : ∀ {id info}, s.executions.lookup id = some info → ∃ e ∈ s.market.tape,
    e.RecordedAs B id info ∧ e.trade.takerOrderId ∉ s.replacements
  recorded : ∀ {e}, e ∈ s.market.tape → e.trade.price < 2 ^ 64 →
    e.trade.takerOrderId ∉ s.replacements → e.trade.takerOrderId ∉ s.quoted →
    (s.filedUnder e).isSome
  held : s.market.volume < 2 ^ 63 → ∀ key,
    s.held key = balance s.filedUnder Execution.amount s.market.tape key

/-- Nothing was executed and nothing recorded. -/
structure Silent (s s' : AppState B F) : Prop where
  tape : s'.market.tape = s.market.tape
  nextTradeId : s'.market.nextTradeId = s.market.nextTradeId
  next : s.market.nextOrderId ≤ s'.market.nextOrderId
  data : s'.toMarketData = s.toMarketData
  quoted : s'.quoted = s.quoted
  replacements : s'.replacements = s.replacements

theorem Ledger.silent (h : s.Ledger) (hs : Silent s s') : s'.Ledger where
  numbered := h.numbered.same hs.tape hs.nextTradeId
  issued i hi := by
    rw [hs.replacements] at hi
    exact (h.issued i hi).trans_le hs.next
  executed := by
    rw [hs.tape, hs.replacements, hs.data]
    exact h.executed
  recorded := by
    unfold filedUnder
    rw [hs.tape, hs.replacements, hs.quoted, hs.data]
    exact h.recorded
  held := by
    unfold filedUnder volume
    rw [hs.tape, hs.data]
    exact h.held

section Growing

/-- Nothing was recorded yet under the id of a trade that is still to come. -/
theorem Ledger.unused [LawfulUpstream B] (h : s.Ledger) {k : TradeId}
    (hk : s.market.nextTradeId ≤ k) : s.executions.lookup (showTradeId B k) = none := by
  cases hl : s.executions.lookup (showTradeId B k) with
  | none => rfl
  | some info =>
    obtain ⟨e, he, hr, -⟩ := h.executed hl
    have hlt := h.numbered.lt he
    have hid : k = e.trade.tradeId := LawfulUpstream.showTradeId_injective hr.id
    exact absurd hlt (Nat.not_lt.mpr (hid ▸ hk))

/-- The trades so far stay filed where they were; a match adds its own. -/
theorem balance_submitted (hs : Submitted s.market s'.market a side limit q r left)
    (hold : ∀ e ∈ s.market.tape, s'.filedUnder e = s.filedUnder e) :
    balance s'.filedUnder Execution.amount s'.market.tape key =
      balance s.filedUnder Execution.amount s.market.tape key +
        total (fun t => signed side t.quantity)
          (fun t => s'.filedUnder ⟨a, side, t⟩ = some key) r.trades := by
  rw [hs.filled.tape, balance_append]
  congr 1
  · exact balance_congr hold
  · exact total_map _ _

/-- No position is larger than what was executed. -/
theorem Ledger.natAbs_held_le (h : s.Ledger) (hv : s.market.volume < 2 ^ 63) (key : String) :
    (s.held key).natAbs ≤ s.market.volume := by
  have hamount : ∀ e : Execution, e.amount.natAbs = e.trade.quantity := by
    intro e
    exact natAbs_signed _ _
  have hle := natAbs_total_le Execution.amount (fun e => s.filedUnder e = some key) s.market.tape
  simp only [hamount] at hle
  rw [h.held hv]
  exact hle

variable [LawfulUpstream B]

/-- The record of a trade of the match. -/
theorem Recorded.executions_self (hr : Recorded s s' s'.market a symbol side r)
    (hs : Submitted s.market s'.market a side limit q r left) {t : Trade} (ht : t ∈ r.trades)
    (hp : t.price < 2 ^ 64) : s'.executions.lookup (showTradeId B t.tradeId) =
      some (MarketData.executionInfo symbol side (fillOf B t)) := by
  have hids : ((executedFills B r).map ExecutedFill.tradeId).Nodup := by
    have hmap : (executedFills B r).map ExecutedFill.tradeId =
        (r.trades.map Trade.tradeId).map (showTradeId B) := by
      simp [executedFills, Function.comp_def]
    rw [hmap]
    exact hs.trades_nodup.map LawfulUpstream.showTradeId_injective
  have hmem : fillOf B t ∈ executedFills B r := List.mem_map_of_mem ht
  rw [hr.data]
  exact MarketData.recordRow_executions_self hids hmem hp

/-- An id that no recorded trade of the match has keeps its execution. -/
theorem Recorded.executions_other (hr : Recorded s s' s'.market a symbol side r) {k : TradeId}
    (hk : ∀ t ∈ r.trades, t.price < 2 ^ 64 → t.tradeId ≠ k) :
    s'.executions.lookup (showTradeId B k) = s.executions.lookup (showTradeId B k) := by
  rw [hr.data]
  apply MarketData.recordRow_executions_other
  intro fill hfill hp hid
  obtain ⟨t, ht, rfl⟩ := List.mem_map.mp hfill
  exact hk t ht hp (LawfulUpstream.showTradeId_injective hid)

theorem Ledger.filed_old (h : s.Ledger) (hr : Recorded s s' s'.market a symbol side r)
    (hs : Submitted s.market s'.market a side limit q r left) {e : Execution}
    (he : e ∈ s.market.tape) : s'.filedUnder e = s.filedUnder e := by
  unfold filedUnder
  rw [hr.executions_other]
  intro t ht _ hid
  exact absurd (h.numbered.lt he) (Nat.not_lt.mpr (hid ▸ hs.trade_ge ht))

theorem Ledger.filed_new (h : s.Ledger) (hr : Recorded s s' s'.market a symbol side r)
    (hs : Submitted s.market s'.market a side limit q r left) {t : Trade} (ht : t ∈ r.trades) :
    s'.filedUnder ⟨a, side, t⟩ = if t.price < 2 ^ 64 then some symbol else none := by
  unfold filedUnder
  split_ifs with hp
  · rw [hr.executions_self hs ht hp]
    rfl
  · rw [hr.executions_other, h.unused (hs.trade_ge ht)]
    · rfl
    · intro u hu hpu hid
      have hsame : u = t := List.inj_on_of_nodup_map hs.trades_nodup hu ht hid
      exact hp (hsame ▸ hpu)

/-- A match that is recorded moves the position under its symbol by what it executed. -/
theorem Ledger.record_held (h : s.Ledger) (hr : Recorded s s' s'.market a symbol side r)
    (hs : Submitted s.market s'.market a side limit q r left) (hv : s'.market.volume < 2 ^ 63)
    (key : String) :
    s'.held key = balance s'.filedUnder Execution.amount s'.market.tape key := by
  have hvol := hs.volume
  have hle := h.natAbs_held_le (by omega) key
  have hquant : (executedFills B r).map ExecutedFill.quantity = r.trades.map Trade.quantity := by
    simp [executedFills, Function.comp_def]
  have hsum : s'.held key = s.held key + if key = symbol then
      total (fun fill : ExecutedFill => signed side fill.quantity)
        (fun fill => fill.price < 2 ^ 64) (executedFills B r) else 0 := by
    rw [hr.data]
    apply MarketData.recordRow_held
    rw [hquant]
    omega
  have hrow : total (fun fill : ExecutedFill => signed side fill.quantity)
      (fun fill => fill.price < 2 ^ 64) (executedFills B r) =
      total (fun t : Trade => signed side t.quantity) (fun t => t.price < 2 ^ 64) r.trades :=
    total_map (fillOf B) r.trades
  rw [hsum, hrow, h.held (by omega), balance_submitted hs fun e he => h.filed_old hr hs he]
  congr 1
  split_ifs with hk
  · apply total_congr
    intro t ht
    rw [h.filed_new hr hs ht, hk]
    simp
  · symm
    apply total_eq_zero
    intro t ht
    rw [h.filed_new hr hs ht]
    simp [Ne.symm hk]

theorem Ledger.record (h : s.Ledger) (hr : Recorded s s' s'.market a symbol side r)
    (hs : Submitted s.market s'.market a side limit q r left)
    (hsym : ∃ segment, symbol = symbolOf a.underlying segment a.strike a.style) : s'.Ledger where
  numbered := h.numbered.submitted hs
  issued i hi := by
    rw [hr.replacements] at hi
    rw [hs.nextOrderId]
    exact (h.issued i hi).trans (Nat.lt_succ_self _)
  executed {id info} hl := by
    rw [hr.replacements, hs.filled.tape]
    rw [hr.data] at hl
    rcases MarketData.recordRow_executions hl with hl | ⟨fill, hfill, hp, hid, hinfo⟩
    · obtain ⟨e, he, hrec⟩ := h.executed hl
      exact ⟨e, List.mem_append_left _ he, hrec⟩
    · obtain ⟨t, ht, rfl⟩ := List.mem_map.mp hfill
      obtain ⟨segment, rfl⟩ := hsym
      refine ⟨⟨a, side, t⟩, List.mem_append_right _ (List.mem_map.mpr ⟨t, ht, rfl⟩),
        ⟨hid, hp, segment, hinfo⟩, ?_⟩
      show t.takerOrderId ∉ s.replacements
      rw [hs.filled.matched.takers t ht]
      exact fun hi => lt_irrefl _ (h.issued _ hi)
  recorded {e} he hp hrep hq := by
    rw [hr.replacements] at hrep
    rw [hr.quoted] at hq
    rw [hs.filled.tape] at he
    rcases List.mem_append.mp he with he | he
    · rw [h.filed_old hr hs he]
      exact h.recorded he hp hrep hq
    · obtain ⟨t, ht, rfl⟩ := List.mem_map.mp he
      rw [h.filed_new hr hs ht, if_pos hp]
      rfl
  held := h.record_held hr hs

theorem Ledger.matched (h : s.Ledger) {x : Exchange B} (hr : Recorded s s' x a symbol side r)
    (hs : Submitted s.market x a side limit q r left)
    (hsym : ∃ segment, symbol = symbolOf a.underlying segment a.strike a.style) : s'.Ledger := by
  obtain rfl := hr.market
  exact h.record hr hs hsym

/-- A match of a replacement or a quote is not recorded. -/
theorem Ledger.unrecorded (h : s.Ledger) (hf : s.market.Fresh)
    (hs : Submitted s.market s'.market a side limit q r left)
    (hdata : s'.toMarketData = s.toMarketData) (hq : s.quoted ⊆ s'.quoted)
    (hold : s.replacements ⊆ s'.replacements)
    (hnew : ∀ i ∈ s'.replacements, i ∈ s.replacements ∨ i = s.market.nextOrderId)
    (hmark : s.market.nextOrderId ∈ s'.quoted ∨ s.market.nextOrderId ∈ s'.replacements) :
    s'.Ledger where
  numbered := h.numbered.submitted hs
  issued i hi := by
    rw [hs.nextOrderId]
    rcases hnew i hi with hi | rfl
    · exact (h.issued i hi).trans (Nat.lt_succ_self _)
    · exact Nat.lt_succ_self _
  executed {id info} hl := by
    rw [hdata] at hl
    obtain ⟨e, he, hrec, hrep⟩ := h.executed hl
    refine ⟨e, ?_, hrec, fun hi => ?_⟩
    · rw [hs.filled.tape]
      exact List.mem_append_left _ he
    · rcases hnew _ hi with hi | hi
      · exact hrep hi
      · exact absurd hi (hf.taped e he).1.ne
  recorded {e} he hp hrep hquot := by
    rw [hs.filled.tape] at he
    unfold filedUnder
    rw [hdata]
    rcases List.mem_append.mp he with he | he
    · exact h.recorded he hp (fun hi => hrep (hold hi)) (fun hi => hquot (hq hi))
    · obtain ⟨t, ht, rfl⟩ := List.mem_map.mp he
      have htaker : t.takerOrderId = s.market.nextOrderId := hs.filled.matched.takers t ht
      dsimp only at hrep hquot
      rw [htaker] at hrep hquot
      exact absurd hmark (not_or.mpr ⟨hquot, hrep⟩)
  held hv key := by
    have hvol := hs.volume
    have hsame : ∀ e, s'.filedUnder e = s.filedUnder e := by
      intro e
      unfold filedUnder
      rw [hdata]
    have hrow : total (fun t : Trade => signed side t.quantity)
        (fun t => s'.filedUnder ⟨a, side, t⟩ = some key) r.trades = 0 := by
      apply total_eq_zero
      intro t ht
      rw [hsame]
      unfold filedUnder
      rw [h.unused (hs.trade_ge ht)]
      rfl
    rw [balance_submitted hs fun e _ => hsame e, hrow, add_zero, hdata]
    exact h.held (by omega) key

end Growing

section Parts
variable {x : Exchange B} {id : OrderId}

theorem Silent.idle (hi : Idle s.market x) : Silent s (s.withMarket x) :=
  ⟨hi.tape, hi.nextTradeId, hi.nextOrderId, rfl, rfl, rfl⟩

theorem Silent.cancelled (hc : Cancelled s.market x a id) : Silent s (s.withMarket x) :=
  ⟨hc.tape, hc.nextTradeId, hc.nextOrderId.ge, rfl, rfl, rfl⟩

omit [Upstream B] in
/-- What publishes or tracks only is as silent as what went before. -/
theorem Silent.reported {s'' : AppState B F} (h : Silent s s') (hm : s''.market = s'.market)
    (hd : s''.toMarketData = s'.toMarketData) (hq : s''.quoted = s'.quoted)
    (hr : s''.replacements = s'.replacements) : Silent s s'' where
  tape := by rw [hm, h.tape]
  nextTradeId := by rw [hm, h.nextTradeId]
  next := by rw [hm]; exact h.next
  data := hd.trans h.data
  quoted := hq.trans h.quoted
  replacements := hr.trans h.replacements

variable [LawfulUpstream B]

theorem Ledger.submitLimit (h : s.Ledger) (hg : s.Grounded) (expStr : String) (a : OptionAddr)
    (tif : TimeInForce) (body : AddOrderRequest) : (s.submitLimit expStr a tif body).2.Ledger := by
  rcases submitLimit_cases hg.fresh expStr a tif body with ⟨x, he, hi⟩ | ⟨r, x, he, -, hs⟩
  · rw [he]
    exact h.silent (.idle hi)
  · obtain ⟨hr, -⟩ := acceptLimit_recorded (s := s) (x := x) (a := a) expStr body
      s.market.nextOrderId hs.filled.matched.positive
    rw [he]
    exact h.matched hr hs ⟨expStr, rfl⟩

theorem Ledger.submitMarket (h : s.Ledger) (hg : s.Grounded) (expStr : String) (a : OptionAddr)
    (body : MarketOrderRequest) : (s.submitMarket expStr a body).2.Ledger := by
  rcases submitMarket_cases hg.fresh expStr a body with ⟨x, he, hi⟩ | ⟨r, x, he, -, hs⟩
  · rw [he]
    exact h.silent (.idle hi)
  · obtain ⟨hr, -⟩ := acceptMarket_recorded (s := s) (x := x) (a := a) expStr body.side
      hs.filled.matched.positive
    rw [he]
    exact h.matched hr hs ⟨expStr, rfl⟩

theorem Ledger.submitSingleOrder (h : s.Ledger) (hg : s.Grounded) (item : BulkOrderItem) :
    (s.submitSingleOrder item).2.Ledger := by
  rcases submitSingleOrder_cases s item with ⟨e, hnone, he⟩ | ⟨a, r, hsome, he⟩
  · rw [he]
    exact h.silent (.idle (placeItem_refused hg.fresh hnone))
  · obtain ⟨hl, hs⟩ := placeItem_accepted hg.fresh hsome
    obtain ⟨-, hu, hk, hst, -⟩ := locate_ok hl
    have hr := acceptItem_recorded (s := s) (x := (s.market.placeItem item).2) item
      s.market.nextOrderId hu hs.filled.matched.positive
    rw [he]
    refine h.matched hr hs ⟨item.expiration, ?_⟩
    rw [hu, hk, hst]

theorem Ledger.cancelAt (h : s.Ledger) (a : OptionAddr) (id : OrderId) (key : String) :
    (s.cancelAt a id key).2.Ledger := by
  rcases s.cancelAt_cases a id key with ⟨e, x, he, -, hi⟩ | ⟨x, he, -, hc⟩ | ⟨x, he, -, hi, -⟩
  · rw [he]
    exact h.silent (.idle hi)
  · rw [he]
    have hsilent : Silent s ((s.withMarket x).untrack key) :=
      (Silent.cancelled hc).reported rfl rfl rfl rfl
    cases s.market.getOrder a id with
    | none => exact h.silent hsilent
    | some o => exact h.silent (hsilent.reported rfl rfl rfl rfl)
  · rw [he]
    exact h.silent ((Silent.idle hi).reported rfl rfl rfl rfl)

theorem Ledger.cancelTracked (h : s.Ledger) (key : String) (o : OrderInfo) :
    (s.cancelTracked key o).2.Ledger := by
  rcases s.cancelTracked_cases key o with ⟨e, x, he, hi, -⟩ | ⟨a, id, x, he, -, hc⟩
  · rw [he]
    exact h.silent (.idle hi)
  · rw [he]
    exact h.silent ((Silent.cancelled hc).reported rfl rfl rfl rfl)

omit [LawfulUpstream B] in
theorem Ledger.reconcile (h : s.Ledger) (o : AcceptedBulkOrder) (cancel : Except String Bool) :
    (s.reconcile o cancel).Ledger := by
  have hsame : Silent s s := ⟨rfl, rfl, le_rfl, rfl, rfl, rfl⟩
  unfold AppState.reconcile
  dsimp only
  split_ifs
  · exact h.silent (hsame.reported rfl rfl rfl rfl)
  · cases cancel with
    | ok cleared => exact h.silent (hsame.reported rfl rfl rfl rfl)
    | error e => exact h

theorem Ledger.rollbackOrder (h : s.Ledger) (item : BulkOrderItem) (o : AcceptedBulkOrder) :
    (s.rollbackOrder item o).2.Ledger := by
  have hcancel : (s.cancelBulkItemOrder item o.orderId).2.Ledger := by
    rcases s.cancelBulkItemOrder_cases item o.orderId with ⟨res, x, he, hi, -⟩ | ⟨a, x, he, -, hc⟩
    · rw [he]
      exact h.silent (.idle hi)
    · rw [he]
      exact h.silent ((Silent.cancelled hc).reported rfl rfl rfl rfl)
  exact hcancel.reconcile o _

/-- The replacement is marked, and what it traded is not recorded. -/
theorem Ledger.placeReplacement (h : s.Ledger) (hf : s.market.Fresh) (expStr key : String)
    (a : OptionAddr) (side : Side) (price q : ℕ) :
    (s.placeReplacement expStr key a side price q).2.Ledger := by
  rcases placeReplacement_cases hf expStr key a side price q with ⟨x, he, hi⟩ | ⟨r, x, he, -, hs⟩
  · rw [he]
    exact h.silent (.idle hi)
  · rw [he]
    apply h.unrecorded hf
    · exact hs
    · rfl
    · exact List.Subset.refl _
    · exact List.subset_cons_self _ _
    · intro i hi
      exact (List.mem_cons.mp hi).symm
    · exact .inr List.mem_cons_self

theorem Ledger.replaceOrder (h : s.Ledger) (hg : s.Grounded) (expStr key : String)
    (a : OptionAddr) (id : OrderId) (o : RestingOrder) (price q : ℕ) :
    (s.replaceOrder expStr key a id o price q).2.Ledger := by
  rcases s.replaceOrder_cases expStr key a id o price q with ⟨x, he, hi⟩ | ⟨x, he, hcancel, hc⟩
  · rw [he]
    exact h.silent (.idle hi)
  · rw [he]
    apply Ledger.placeReplacement
    · exact h.silent ((Silent.cancelled hc).reported rfl rfl rfl rfl)
    · exact (hc.toRemoved.shrunk.wanes hg.fresh).fresh

theorem Ledger.restoreSnapshot (h : s.Ledger) (hg : s.Grounded) (id : String) :
    (s.restoreSnapshot id).2.Ledger := by
  rcases s.restoreSnapshot_cases id with he | ⟨stored, hst, he⟩
  · rw [he]
    exact h
  · obtain ⟨hages, htape, -, hnext, -⟩ := restoreInfos_ages hg.fresh (hg.saved id stored hst)
    rw [he]
    exact h.silent ⟨htape, hnext, hages.next, rfl, rfl, rfl⟩

theorem Ledger.callsKeep : CallsKeep fun s : AppState B F => s.Ledger where
  limit hg h _ := h.submitLimit hg _ _ _ _
  market hg h _ := h.submitMarket hg _ _ _
  item item hg h := h.submitSingleOrder hg item
  delete _ h _ := h.cancelAt _ _ _
  replace o price q hg h _ _ := h.replaceOrder hg _ _ _ _ o price q
  cancel key o _ h := h.cancelTracked key o
  rollback item o _ h := h.rollbackOrder item o
  untrack _ _ h := h.silent ⟨rfl, rfl, le_rfl, rfl, rfl, rfl⟩
  save _ _ h := h.silent ⟨rfl, rfl, le_rfl, rfl, rfl, rfl⟩
  restore id hg h := h.restoreSnapshot hg id

variable [F64 F]

/-- The engine cancels and quotes; what a quote trades is not recorded. -/
theorem Ledger.engine (h : s.Ledger) (hf : s.market.Fresh) (op : Operation F) :
    Ledger { s with toDesk := op.apply s.toDesk } := by
  have hkeep : Desk.PartsKeep fun d : Desk B F =>
      d.market.Fresh ∧ Ledger { s with toDesk := d } := by
    constructor
    · intro d e hd
      exact ⟨hd.1, hd.2.silent ⟨rfl, rfl, le_rfl, rfl, rfl, rfl⟩⟩
    · intro d a i hd
      have hw := cancelOrder_wanes hd.1 a i
      exact ⟨hw.fresh, hd.2.silent ⟨rfl, rfl, le_rfl, rfl, rfl, rfl⟩⟩
    · intro d a isBuy p q hd
      rcases Desk.placeOnBook_submits hd.1 a isBuy p q with ⟨x, he, hi⟩ | ⟨x, r, he, hs⟩
      · rw [he]
        exact ⟨hd.1.quiet hi.toQuiet, hd.2.silent (.idle hi)⟩
      · rw [he]
        constructor
        · exact (hs.wanes hd.1).fresh
        · apply hd.2.unrecorded hd.1
          · exact hs
          · rfl
          · exact List.subset_cons_self _ _
          · exact List.Subset.refl _
          · exact fun i hi => .inl hi
          · exact .inl List.mem_cons_self
  exact (hkeep.operation ⟨hf, h⟩ op).2

theorem Ledger.restKeeps : RestKeeps fun s : AppState B F => s.Ledger where
  idle _ _ h hi _ := h.silent (.idle hi)
  remove _ _ h := h.silent ⟨rfl, rfl, le_rfl, rfl, rfl, rfl⟩
  engine op hg h := h.engine hg.fresh op
  tick _ _ h := h.silent ⟨rfl, rfl, le_rfl, rfl, rfl, rfl⟩

omit [LawfulUpstream B] in
theorem Start.ledger (h : s.Start) : s.Ledger := by
  obtain ⟨quoter, rfl⟩ := h
  constructor
  · rfl
  · exact nofun
  · intro id info hl
    have hnone : (∅ : Table String ExecutionInfo).lookup id = some info := hl
    simp at hnone
  · exact nofun
  · intro _ key
    have hnone : (∅ : Table String PositionInfo).lookup key = none := by simp
    show ((∅ : Table String PositionInfo).lookup key |>.map PositionInfo.quantity).getD 0 = 0
    rw [hnone]
    rfl

theorem reaches_ledger {ok : AppState B F → Request F → Prop} (h : Reaches Start step ok s) :
    s.Ledger := (Ledger.callsKeep.reaches Ledger.restKeeps (fun _ hs => hs.ledger) h).2

end Parts

section Books

/-- The executions and positions of the process are those of its trades. Trades of a replacement
on arrival are not recorded. -/
structure Booked (s : AppState B F) : Prop where
  once : (s.market.tape.map fun e => e.trade.tradeId).Nodup
  executed : ∀ id info, s.executions.lookup id = some info → ∃ e ∈ s.market.tape,
    e.RecordedAs B id info ∧ e.trade.takerOrderId ∉ s.replacements
  recorded : ∀ e ∈ s.market.tape, e.trade.price < 2 ^ 64 →
    e.trade.takerOrderId ∉ s.replacements → e.trade.takerOrderId ∉ s.quoted →
    ∃ info, s.executions.lookup (showTradeId B e.trade.tradeId) = some info ∧
      e.RecordedAs B (showTradeId B e.trade.tradeId) info
  positions : s.market.volume < 2 ^ 63 → ∀ key,
    s.held key = balance s.filedUnder Execution.amount s.market.tape key
  books : s.market.volume < 2 ^ 63 → ∀ (keys : Finset String) (books : Finset OptionAddr),
    (∀ e ∈ s.market.tape, ∀ key, s.filedUnder e = some key → (key ∈ keys ↔ e.addr ∈ books)) →
    (∀ e ∈ s.market.tape, e.addr ∈ books → e.trade.takerOrderId ∉ s.quoted) →
    ∑ key ∈ keys, s.held key = total Execution.amount (fun e => e.addr ∈ books ∧
      e.trade.price < 2 ^ 64 ∧ e.trade.takerOrderId ∉ s.replacements) s.market.tape

variable [LawfulUpstream B]

/-- The only record under the id of a trade is that of the trade. -/
theorem Ledger.recordedAs (h : s.Ledger) {e : Execution} {info : ExecutionInfo}
    (he : e ∈ s.market.tape)
    (hl : s.executions.lookup (showTradeId B e.trade.tradeId) = some info) :
    e.RecordedAs B (showTradeId B e.trade.tradeId) info ∧
      e.trade.takerOrderId ∉ s.replacements := by
  obtain ⟨e', he', hrec, hrep⟩ := h.executed hl
  have hid : e'.trade.tradeId = e.trade.tradeId :=
    (LawfulUpstream.showTradeId_injective hrec.id).symm
  obtain rfl : e' = e := List.inj_on_of_nodup_map h.numbered.nodup he' he hid
  exact ⟨hrec, hrep⟩

/-- What is filed under the keys is what the books traded, up to the trades not recorded. -/
theorem Ledger.filed_iff (h : s.Ledger) {keys : Finset String} {books : Finset OptionAddr}
    (hkeys : ∀ e ∈ s.market.tape, ∀ key, s.filedUnder e = some key →
      (key ∈ keys ↔ e.addr ∈ books))
    (hquotes : ∀ e ∈ s.market.tape, e.addr ∈ books → e.trade.takerOrderId ∉ s.quoted)
    {e : Execution} (he : e ∈ s.market.tape) : (s.filedUnder e).any (· ∈ keys) = true ↔
      e.addr ∈ books ∧ e.trade.price < 2 ^ 64 ∧ e.trade.takerOrderId ∉ s.replacements := by
  constructor
  · intro hany
    obtain ⟨key, hkey, hmem⟩ : ∃ key, s.filedUnder e = some key ∧ key ∈ keys := by
      simpa [Option.any_eq_true] using hany
    obtain ⟨info, hl, -⟩ := Option.map_eq_some_iff.mp hkey
    obtain ⟨hrec, hrep⟩ := h.recordedAs he hl
    exact ⟨(hkeys e he key hkey).mp hmem, hrec.price, hrep⟩
  · rintro ⟨hbook, hp, hrep⟩
    have hsome := h.recorded he hp hrep (hquotes e he hbook)
    obtain ⟨key, hkey⟩ := Option.isSome_iff_exists.mp hsome
    rw [hkey]
    simpa using (hkeys e he key hkey).mpr hbook

theorem Ledger.booked (h : s.Ledger) : s.Booked where
  once := h.numbered.nodup
  executed _ _ := h.executed
  recorded e he hp hrep hq := by
    have hsome := h.recorded he hp hrep hq
    obtain ⟨key, hkey⟩ := Option.isSome_iff_exists.mp hsome
    obtain ⟨info, hl, -⟩ := Option.map_eq_some_iff.mp hkey
    exact ⟨info, hl, (h.recordedAs he hl).1⟩
  positions := h.held
  books hv keys books hkeys hquotes := by
    simp only [h.held hv]
    rw [sum_balance]
    apply total_congr
    intro e he
    rw [Bool.eq_iff_iff, h.filed_iff hkeys hquotes he, decide_eq_true_iff]

variable [F64 F] {ok : AppState B F → Request F → Prop}

/-- In every run of any requests. -/
theorem executions_booked (h : Reaches Start step ok s) : s.Booked := (reaches_ledger h).booked

end Books

section Reference

/-- An ask of five at 100, one unit of it bought, and a bid for one more moved up to 100. -/
def bidRaised : List (Request ℚ) :=
  relativeOrder ++ [.addOrder ⟨"BTC", "30", 10000, "call"⟩ ⟨.buy, 100, 1, none, none⟩,
    .addOrder ⟨"BTC", "30", 10000, "call"⟩ ⟨.buy, 90, 1, none, none⟩,
    .modifyOrder ⟨"BTC", "19700131", 10000, "call"⟩ "2" ⟨some 100, none⟩]

theorem bidRaised_reaches :
    Reaches Start step (fun _ _ => True) (bidRaised.foldl step reference) :=
  (Reaches.start reference_start).run ⟨trivial, trivial, trivial, trivial, trivial⟩

/-- The moved bid trades on arrival, and no execution is recorded. -/
theorem replacement_unrecorded : ¬ ∀ s : AppState ReferenceBook ℚ,
    Reaches Start step (fun _ _ => True) s → ∀ e ∈ s.market.tape, e.trade.price < 2 ^ 64 →
      (s.executions.lookup (showTradeId ReferenceBook e.trade.tradeId)).isSome := by
  intro h
  have htrade : ⟨btcCall, .buy, 1, 3, 0, 100, 1, 0⟩ ∈ (bidRaised.foldl step reference).market.tape :=
    by decide +kernel
  have hsome := h _ bidRaised_reaches _ htrade (by decide)
  exact absurd hsome (by decide +kernel)

theorem executions_booked_raised :
    (bidRaised.foldl step reference).held "BTC-30-10000-C" = 1 ∧
      (bidRaised.foldl step reference).market.tape.length = 2 := by
  have hbooked := executions_booked bidRaised_reaches
  have hone : ∀ e ∈ (bidRaised.foldl step reference).market.tape, e.addr = btcCall ∧
      e.trade.takerOrderId ∉ (bidRaised.foldl step reference).quoted := by decide +kernel
  have hfiled : ∀ e ∈ (bidRaised.foldl step reference).market.tape,
      (bidRaised.foldl step reference).filedUnder e ∈ [none, some "BTC-30-10000-C"] := by
    decide +kernel
  have hsum := hbooked.books (by decide +kernel) {"BTC-30-10000-C"} {btcCall} (by
      intro e he key hkey
      have hmem := hfiled e he
      rw [hkey] at hmem
      simpa [(hone e he).1] using hmem) fun e he _ => (hone e he).2
  rw [Finset.sum_singleton] at hsum
  rw [hsum]
  constructor <;> decide +kernel

end Reference
end AppState
end OptionChainBackend
