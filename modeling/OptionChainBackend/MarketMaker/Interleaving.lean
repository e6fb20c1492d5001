import Mathlib.Logic.Relation
import OptionChainBackend.MarketMaker.KillSwitch

/-!
Concurrent calls of the engine. Every call is cut at its lock-protected sections and book
calls; a step of a call is one of these, and the calls step in any order.
-/
namespace OptionChainBackend
namespace MarketMaker
open Foundation Upstream Exchange MarketMakerEngine

/-- One instrument to requote, with the context `requote_symbol` built for it. -/
structure Instrument (F : Type) where
  ctx : RequoteContext F
  strike : ℕ
  style : OptionStyle

def Instrument.addr {F : Type} (i : Instrument F) : OptionAddr :=
  ⟨i.ctx.symbol, i.ctx.expiration, i.strike, i.style⟩

/-- An instrument being requoted, its quote, and the instruments after it. -/
structure Job (F : Type) where
  instrument : Instrument F
  quote : QuoteParams
  rest : List (Instrument F)

def Job.addr {F : Type} (j : Job F) : OptionAddr := j.instrument.addr

def Job.leg {F : Type} (j : Job F) (isBuy : Bool) : ActiveOrderInfo :=
  Desk.legInfo j.instrument.ctx j.instrument.strike j.instrument.style j.quote isBuy

/-- Where a call of `update_price` stands: what it does in its next step. -/
inductive UpdatePc (F : Type) where
  | write (symbol : String) (priceCents : ℕ)
  | readSwitch (symbol : String)
  | readSymbol (symbol : String)
  | readPrice (symbol : String)
  | readConfig (symbol : String) (spotCents : ℕ)
  | quoting (work : List (Instrument F))
  | cancelStale (job : Job F) (stale : Slots) (left : List OrderId)
  | unindex (job : Job F)
  | placeBid (job : Job F)
  | trackBid (job : Job F) (id : OrderId)
  | placeAsk (job : Job F) (bid : Option OrderId)
  | trackAsk (job : Job F) (bid : Option OrderId) (id : OrderId)
  | record (job : Job F) (placed : Slots)
  | done

/-- Where a call of `cancel_order` stands. -/
inductive CancelPc where
  | remove (id : OrderId)
  | unslot (id : OrderId) (order : ActiveOrderInfo)
  | onBook (id : OrderId) (order : ActiveOrderInfo)
  | done

/-- Where the call of `set_enabled(false)` stands. -/
inductive SwitchPc where
  | flag
  | snapshot
  | cancelling (current : CancelPc) (todo : List OrderId)
  | announce
  | done

namespace Desk
variable {B F : Type} [Upstream B] [F64 F]

def quoteOf (d : Desk B F) (i : Instrument F) : Option QuoteParams :=
  d.engine.quoter.generateQuote d.market.now (quoteInput i.ctx i.strike i.style)

/-- The instruments of `requote_symbol`, each with its context. -/
def worklist (d : Desk B F) (symbol : String) (spotCents : ℕ) : List (Instrument F) :=
  if d.market.get symbol then
    (d.instruments symbol).map fun i => ⟨d.requoteContext symbol spotCents i.1, i.2.1, i.2.2⟩
  else []

def updateStep (d : Desk B F) : UpdatePc F → Desk B F × UpdatePc F
  | .write symbol p =>
    ({ d with engine := (d.engine.insertPrice symbol p).send (.priceUpdated symbol p) },
      .readSwitch symbol)
  | .readSwitch symbol => (d, if d.engine.isEnabled then .readSymbol symbol else .done)
  | .readSymbol symbol => (d, if d.engine.isSymbolEnabled symbol then .readPrice symbol else .done)
  | .readPrice symbol =>
    match d.engine.getPrice symbol with
    | some spot => (d, .readConfig symbol spot)
    | none => (d, .done)
  | .readConfig symbol spot => (d, .quoting (d.worklist symbol spot))
  | .quoting [] => (d, .done)
  | .quoting (i :: rest) =>
    match d.quoteOf i with
    | none => (d, .quoting rest)
    | some q =>
      if d.market.hasBook i.addr then
        let stale := d.engine.slots (.new i.addr)
        if stale.isEmpty then (d, .placeBid ⟨i, q, rest⟩)
        else (d, .cancelStale ⟨i, q, rest⟩ stale stale.ids)
      else (d, .quoting rest)
  | .cancelStale job stale (i :: left) => (d.cancelOnBook job.addr i, .cancelStale job stale left)
  | .cancelStale job stale [] =>
    ({ d with engine := stale.ids.foldl untrack d.engine }, .unindex job)
  | .unindex job => ({ d with engine := d.engine.removeEntry (.new job.addr) }, .placeBid job)
  | .placeBid job =>
    match d.placeOnBook job.addr true job.quote.bidPrice job.quote.bidSize with
    | (some id, d) => (d, .trackBid job id)
    | (none, d) => (d, .placeAsk job none)
  | .trackBid job id => ({ d with engine := d.engine.track id (job.leg true) },
      .placeAsk job (some id))
  | .placeAsk job bid =>
    match d.placeOnBook job.addr false job.quote.askPrice job.quote.askSize with
    | (some id, d) => (d, .trackAsk job bid id)
    | (none, d) => (d, .record job (Slots.pair bid none))
  | .trackAsk job bid id => ({ d with engine := d.engine.track id (job.leg false) },
      .record job (Slots.pair bid (some id)))
  | .record job placed =>
    let ctx := job.instrument.ctx
    let q := job.quote
    let engine := d.engine.recordLegs (.new job.addr) placed
    ({ d with
        engine := engine.send (.quoteUpdated ctx.symbol ctx.expDisplay job.instrument.strike
          (styleName job.instrument.style) q.bidPrice q.askPrice q.bidSize q.askSize) },
      .quoting job.rest)
  | .done => (d, .done)

def cancelStep (d : Desk B F) : CancelPc → Desk B F × CancelPc
  | .remove i =>
    match d.engine.activeOrders.lookup i with
    | none => (d, .done)
    | some o => ({ d with engine := d.engine.untrack i }, .unslot i o)
  | .unslot i o =>
    ({ d with engine := d.engine.clearInstrumentSlot (.fromOrder o) o.isBuy }, .onBook i o)
  | .onBook i o => (if d.market.hasBook o.addr then d.cancelOnBook o.addr i else d, .done)
  | .done => (d, .done)

def switchStep (d : Desk B F) : SwitchPc → Desk B F × SwitchPc
  | .flag => ({ d with engine := d.engine.writeEnabled false }, .snapshot)
  | .snapshot => (d, .cancelling .done d.engine.activeOrders.keys)
  | .cancelling .done [] => ({ d with engine := d.engine.clearIndex }, .announce)
  | .cancelling .done (i :: todo) => (d, .cancelling (.remove i) todo)
  | .cancelling c todo =>
    let out := d.cancelStep c
    (out.1, .cancelling out.2 todo)
  | .announce => ({ d with engine := d.engine.broadcastConfigChange }, .done)
  | .done => (d, .done)

omit [F64 F] in
/-- Between two orders of the shutdown its cancels step. -/
theorem switchStep_cancelling (d : Desk B F) {c : CancelPc} (h : c ≠ .done) (todo : List OrderId) :
    d.switchStep (.cancelling c todo) =
      ((d.cancelStep c).1, .cancelling (d.cancelStep c).2 todo) := by
  cases c with
  | done => exact absurd rfl h
  | remove i => rfl
  | unslot i o => rfl
  | onBook i o => rfl

/-! A call that runs without interruption does what the sequential operation does. -/
section Alone

/-- One call of `update_price` runs from one point to another with nobody else stepping. -/
abbrev Leads (c c' : Desk B F × UpdatePc F) : Prop :=
  Relation.ReflTransGen (fun c c' => c.1.updateStep c.2 = c') c c'

variable {d d' : Desk B F}

theorem leads_cancelStale (d : Desk B F) (job : Job F) (stale : Slots) (left : List OrderId) :
    Leads (d, .cancelStale job stale left)
      (left.foldl (fun d id => d.cancelOnBook job.addr id) d, .cancelStale job stale []) := by
  induction left generalizing d with
  | nil => exact .refl
  | cons i left ih => exact .head rfl (ih (d.cancelOnBook job.addr i))

theorem leads_dropStale (d : Desk B F) (i : Instrument F) (q : QuoteParams)
    (rest : List (Instrument F)) (hq : d.quoteOf i = some q)
    (hb : d.market.hasBook i.addr = true) :
    Leads (d, .quoting (i :: rest))
      (d.dropStale i.addr (d.engine.slots (.new i.addr)), .placeBid ⟨i, q, rest⟩) := by
  unfold Desk.dropStale
  by_cases he : (d.engine.slots (.new i.addr)).isEmpty = true
  · apply Relation.ReflTransGen.single
    simp [updateStep, hq, hb, he]
  · have hfirst : d.updateStep (.quoting (i :: rest)) =
        (d, .cancelStale ⟨i, q, rest⟩ (d.engine.slots (.new i.addr))
          (d.engine.slots (.new i.addr)).ids) := by
      simp [updateStep, hq, hb, he]
    rw [if_neg he]
    refine .head hfirst ((leads_cancelStale d ⟨i, q, rest⟩ _ _).trans ?_)
    exact .head rfl (.head rfl .refl)

theorem leads_placeBid (d : Desk B F) (job : Job F) :
    Leads (d, .placeBid job) ((d.placeLeg job.addr job.quote.bidPrice (job.leg true)).2,
      .placeAsk job (d.placeLeg job.addr job.quote.bidPrice (job.leg true)).1) := by
  unfold placeLeg
  cases h : d.placeOnBook job.addr (job.leg true).isBuy job.quote.bidPrice
      (job.leg true).quantity with
  | mk id d' =>
    have hstep : d.placeOnBook job.addr true job.quote.bidPrice job.quote.bidSize = (id, d') := h
    cases id with
    | none =>
      apply Relation.ReflTransGen.single
      simp [updateStep, hstep]
    | some id =>
      have hfirst : d.updateStep (.placeBid job) = (d', .trackBid job id) := by
        simp [updateStep, hstep]
      exact .head hfirst (.single rfl)

theorem leads_placeAsk (d : Desk B F) (job : Job F) (bid : Option OrderId) :
    Leads (d, .placeAsk job bid) ((d.placeLeg job.addr job.quote.askPrice (job.leg false)).2,
      .record job (Slots.pair bid
        (d.placeLeg job.addr job.quote.askPrice (job.leg false)).1)) := by
  unfold placeLeg
  cases h : d.placeOnBook job.addr (job.leg false).isBuy job.quote.askPrice
      (job.leg false).quantity with
  | mk id d' =>
    have hstep : d.placeOnBook job.addr false job.quote.askPrice job.quote.askSize = (id, d') := h
    cases id with
    | none =>
      apply Relation.ReflTransGen.single
      simp [updateStep, hstep]
    | some id =>
      have hfirst : d.updateStep (.placeAsk job bid) = (d', .trackAsk job bid id) := by
        simp [updateStep, hstep]
      exact .head hfirst (.single rfl)

theorem leads_updateQuote (d : Desk B F) (i : Instrument F) (rest : List (Instrument F)) :
    Leads (d, .quoting (i :: rest)) (d.updateQuote i.ctx i.strike i.style, .quoting rest) := by
  unfold updateQuote
  cases hq : d.engine.quoter.generateQuote d.market.now (quoteInput i.ctx i.strike i.style) with
  | none =>
    have hq' : d.quoteOf i = none := hq
    apply Relation.ReflTransGen.single
    simp [updateStep, hq']
  | some q =>
    have hq' : d.quoteOf i = some q := hq
    dsimp only
    split_ifs with hb
    · refine (leads_dropStale d i q rest hq' hb).trans ?_
      refine (leads_placeBid _ ⟨i, q, rest⟩).trans ?_
      exact (leads_placeAsk _ ⟨i, q, rest⟩ _).trans (.single rfl)
    · have hb' : d.market.hasBook i.addr = false := Bool.eq_false_iff.mpr hb
      apply Relation.ReflTransGen.single
      simp [updateStep, hq', hb']

theorem leads_quoting (d : Desk B F) (work : List (Instrument F)) :
    Leads (d, .quoting work)
      (work.foldl (fun d i => d.updateQuote i.ctx i.strike i.style) d, .done) := by
  induction work generalizing d with
  | nil => exact .single rfl
  | cons i work ih => exact (leads_updateQuote d i work).trans (ih _)

theorem leads_readPrice (d : Desk B F) (symbol : String) :
    Leads (d, .readPrice symbol) (d.requoteSymbol symbol, .done) := by
  unfold requoteSymbol
  cases hp : d.engine.getPrice symbol with
  | none =>
    apply Relation.ReflTransGen.single
    simp [updateStep, hp]
  | some spot =>
    have hfirst : d.updateStep (.readPrice symbol) = (d, .readConfig symbol spot) := by
      simp [updateStep, hp]
    refine .head hfirst (.head rfl ?_)
    have hq := leads_quoting d (d.worklist symbol spot)
    have hw : (d.worklist symbol spot).foldl
        (fun d i => d.updateQuote i.ctx i.strike i.style) d = if d.market.get symbol then
          (d.instruments symbol).foldl
            (fun s i => s.updateQuote (d.requoteContext symbol spot i.1) i.2.1 i.2.2) d
        else d := by
      unfold worklist
      split_ifs
      · rw [List.foldl_map]
      · rfl
    rw [hw] at hq
    exact hq

theorem leads_readSwitch (d : Desk B F) (symbol : String) :
    Leads (d, .readSwitch symbol)
      (if d.engine.isEnabled && d.engine.isSymbolEnabled symbol then d.requoteSymbol symbol else d,
        .done) := by
  cases hon : d.engine.isEnabled with
  | false =>
    apply Relation.ReflTransGen.single
    simp [updateStep, hon]
  | true =>
    have h1 : d.updateStep (.readSwitch symbol) = (d, .readSymbol symbol) := by
      simp [updateStep, hon]
    refine .head h1 ?_
    cases hs : d.engine.isSymbolEnabled symbol with
    | false =>
      apply Relation.ReflTransGen.single
      simp [updateStep, hs]
    | true =>
      have h2 : d.updateStep (.readSymbol symbol) = (d, .readPrice symbol) := by
        simp [updateStep, hs]
      exact .head h2 (leads_readPrice d symbol)

/-- `update_price` run alone, step by step, ends where the sequential operation ends. -/
theorem leads_updatePrice (d : Desk B F) (symbol : String) (p : ℕ) :
    Leads (d, .write symbol p) (d.updatePrice symbol p, .done) :=
  .head rfl (leads_readSwitch _ symbol)

/-- The call of `set_enabled(false)` runs with nobody else stepping. -/
abbrev Switches (c c' : Desk B F × SwitchPc) : Prop :=
  Relation.ReflTransGen (fun c c' => c.1.switchStep c.2 = c') c c'

omit [F64 F] in
theorem switches_cancelOrder (d : Desk B F) (i : OrderId) (todo : List OrderId) :
    Switches (d, .cancelling (.remove i) todo) (d.cancelOrder i, .cancelling .done todo) := by
  unfold cancelOrder
  cases h : d.engine.activeOrders.lookup i with
  | none =>
    apply Relation.ReflTransGen.single
    simp [switchStep, cancelStep, h]
  | some o =>
    have hfirst : d.switchStep (.cancelling (.remove i) todo) =
        ({ d with engine := d.engine.untrack i }, .cancelling (.unslot i o) todo) := by
      simp [switchStep, cancelStep, h]
    exact .head hfirst (.head rfl (.single rfl))

omit [F64 F] in
theorem switches_cancelling (d : Desk B F) (todo : List OrderId) :
    Switches (d, .cancelling .done todo) ({ todo.foldl cancelOrder d with
      engine := (todo.foldl cancelOrder d).engine.clearIndex }, .announce) := by
  induction todo generalizing d with
  | nil => exact .single rfl
  | cons i todo ih =>
    exact .head rfl ((switches_cancelOrder d i todo).trans (ih (d.cancelOrder i)))

omit [F64 F] in
/-- So does `set_enabled(false)`. -/
theorem switches_setEnabled (d : Desk B F) :
    Switches (d, .flag) (d.setEnabled false, .done) :=
  .head rfl (.head rfl ((switches_cancelling _ _).trans (.single rfl)))

end Alone

end Desk
end MarketMaker
end OptionChainBackend
