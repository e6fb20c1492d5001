import OptionChainBackend.Foundation.Announce
import OptionChainBackend.MarketMaker.Traffic

/-!
The operations of the engine as concurrent calls, with the events they broadcast. A dashboard folds
the events; it is right about the settings, which are read under their lock when they are
announced, and about the price of a symbol unless two updates of it overlapped.
-/
namespace OptionChainBackend
namespace MarketMaker
open Foundation Upstream Exchange MarketMakerEngine

variable {B F : Type}

/-- The part of the configuration that is announced. -/
def MarketMakerConfig.settings (c : MarketMakerConfig F) : Bool × F × F × F :=
  (c.enabled, c.spreadMultiplier, c.sizeScalar, c.directionalSkew)

namespace MarketMakerEvent

def settings : MarketMakerEvent F → Option (Bool × F × F × F)
  | .configChanged enabled spread size skew => some (enabled, spread, size, skew)
  | _ => none

def priceOf (symbol : String) : MarketMakerEvent F → Option ℕ
  | .priceUpdated s p => if s = symbol then some p else none
  | _ => none

end MarketMakerEvent

/-- What a listener makes of the events. -/
structure Dashboard (F : Type) where
  settings : Bool × F × F × F
  prices : Table String ℕ

namespace Dashboard

/-- It knows how a fresh engine starts. -/
def fresh [F64 F] : Dashboard F := ⟨MarketMakerConfig.standard.settings, ∅⟩

def hear (b : Dashboard F) : MarketMakerEvent F → Dashboard F
  | .configChanged enabled spread size skew => { b with settings := (enabled, spread, size, skew) }
  | .priceUpdated symbol p => { b with prices := b.prices.insert symbol p }
  | _ => b

variable {b : Dashboard F}

theorem hear_settings (es : List (MarketMakerEvent F)) :
    (es.foldl hear b).settings = (es.filterMap MarketMakerEvent.settings).getLastD b.settings := by
  induction es generalizing b with
  | nil => rfl
  | cons e es ih =>
    rw [List.foldl_cons, ih]
    cases e with
    | configChanged enabled spread size skew =>
      show _ = ((enabled, spread, size, skew) :: es.filterMap MarketMakerEvent.settings).getLastD _
      rw [List.getLastD_cons]
      rfl
    | _ => rfl

theorem hear_prices (symbol : String) (es : List (MarketMakerEvent F)) :
    (es.foldl hear b).prices.lookup symbol =
      (es.filterMap (MarketMakerEvent.priceOf symbol)).getLast?.or (b.prices.lookup symbol) := by
  induction es generalizing b with
  | nil => rfl
  | cons e es ih =>
    rw [List.foldl_cons, ih]
    cases e with
    | priceUpdated s p =>
      by_cases hs : s = symbol
      · subst hs
        have hhead : MarketMakerEvent.priceOf s (.priceUpdated s p : MarketMakerEvent F) =
            some p := if_pos rfl
        rw [List.filterMap_cons_some hhead, List.getLast?_cons]
        generalize (es.filterMap (MarketMakerEvent.priceOf s)).getLast? = last
        cases last <;> simp [hear]
      · have hhead : MarketMakerEvent.priceOf symbol (.priceUpdated s p : MarketMakerEvent F) =
            none := if_neg hs
        rw [List.filterMap_cons_none hhead]
        simp [hear, Ne.symm hs]
    | _ => rfl

end Dashboard

/-- The three parameters. -/
inductive Parameter where
  | spread
  | size
  | skew

def Parameter.write [F64 F] (c : MarketMakerConfig F) (v : F) : Parameter → MarketMakerConfig F
  | .spread => c.withSpreadMultiplier v
  | .size => c.withSizeScalar v
  | .skew => c.withDirectionalSkew v

/-- What a sweep of cancels is part of. -/
inductive Sweep where
  | symbol (symbol : String)
  | all
  | shutdown

/-- Where a call of the engine stands: what it does in its next step. -/
inductive ControlPc (F : Type) where
  | insertPrice (symbol : String) (priceCents : ℕ)
  | sendPrice (symbol : String) (priceCents : ℕ)
  | writeEnabled (enabled : Bool)
  | writeSymbol (symbol : String) (enabled : Bool)
  | writeParameter (parameter : Parameter) (value : F)
  | announce (requote : Bool)
  | listSymbols
  | requoting (current : UpdatePc F) (todo : List String)
  | listOrders (sweep : Sweep)
  | cancelling (sweep : Sweep) (current : CancelPc) (todo : List OrderId)
  | update (pc : UpdatePc F)
  | fill (pc : FillPc)
  | done

namespace ControlPc

/-- Where a call begins. -/
def of : Operation F → ControlPc F
  | .updatePrice symbol p => .insertPrice symbol p
  | .setEnabled on => .writeEnabled on
  | .setSymbolEnabled symbol on => .writeSymbol symbol on
  | .setSpreadMultiplier v => .writeParameter .spread v
  | .setSizeScalar v => .writeParameter .size v
  | .setDirectionalSkew v => .writeParameter .skew v
  | .cancelAllOrders => .listOrders .all
  | .cancelSymbolOrders symbol => .listOrders (.symbol symbol)
  | .onOrderFilled id p q => .fill (.gate id p q)

/-- The call wrote a setting and has not announced it. -/
def Owes : ControlPc F → Prop
  | .announce _ => True
  | .listOrders .shutdown => True
  | .cancelling .shutdown _ _ => True
  | _ => False

/-- The call wrote this price of the symbol and has not announced it. -/
def owedPrice (symbol : String) : ControlPc F → Option ℕ
  | .sendPrice s p => if s = symbol then some p else none
  | _ => none

end ControlPc

namespace Desk
variable [Upstream B] [F64 F]

/-- The orders a sweep takes, read under one lock. -/
def sweepOrders (d : Desk B F) : Sweep → List OrderId
  | .symbol symbol => (d.engine.activeOrders.select fun _ o => o.symbol = symbol).map Prod.fst
  | _ => d.engine.activeOrders.keys

def controlStep (d : Desk B F) : ControlPc F → Desk B F × ControlPc F
  | .insertPrice symbol p => ({ d with engine := d.engine.insertPrice symbol p }, .sendPrice symbol p)
  | .sendPrice symbol p => ({ d with engine := d.engine.send (.priceUpdated symbol p) },
      .update (.readSwitch symbol))
  | .writeEnabled on => ({ d with engine := d.engine.writeEnabled on },
      if on then .announce false else .listOrders .shutdown)
  | .writeSymbol symbol on =>
    (d.writeConfig { d.engine.config with
      symbolEnabled := d.engine.config.symbolEnabled.insert symbol on },
      if on then .done else .listOrders (.symbol symbol))
  | .writeParameter parameter v =>
    if F64.isFinite v then (d.writeConfig (parameter.write d.engine.config v), .announce true)
    else (d, .done)
  | .announce requote => ({ d with engine := d.engine.broadcastConfigChange },
      if requote then .listSymbols else .done)
  | .listSymbols => (d, .requoting .done d.market.underlyings)
  | .requoting .done [] => (d, .done)
  | .requoting .done (symbol :: todo) => (d, .requoting (.readSymbol symbol) todo)
  | .requoting pc todo => ((d.updateStep pc).1, .requoting (d.updateStep pc).2 todo)
  | .listOrders sweep => (d, .cancelling sweep .done (d.sweepOrders sweep))
  | .cancelling (.symbol _) .done [] => (d, .done)
  | .cancelling .all .done [] => ({ d with engine := d.engine.clearIndex }, .done)
  | .cancelling .shutdown .done [] => ({ d with engine := d.engine.clearIndex }, .announce false)
  | .cancelling sweep .done (i :: todo) => (d, .cancelling sweep (.remove i) todo)
  | .cancelling sweep c todo => ((d.cancelStep c).1, .cancelling sweep (d.cancelStep c).2 todo)
  | .update .done => (d, .done)
  | .update pc => ((d.updateStep pc).1, .update (d.updateStep pc).2)
  | .fill .done => (d, .done)
  | .fill pc => ((d.fillStep pc).1, .fill (d.fillStep pc).2)
  | .done => (d, .done)

end Desk

namespace MarketMakerEngine
variable {e e' e'' : MarketMakerEngine F}

/-- Settings and prices stay, and nothing is announced of them. -/
structure Silent (e e' : MarketMakerEngine F) : Prop where
  settings : e'.config.settings = e.config.settings
  prices : e'.prices = e.prices
  extended : e.events <+: e'.events
  toldSettings :
    e'.events.filterMap MarketMakerEvent.settings = e.events.filterMap MarketMakerEvent.settings
  toldPrices : ∀ symbol, e'.events.filterMap (MarketMakerEvent.priceOf symbol) =
    e.events.filterMap (MarketMakerEvent.priceOf symbol)

namespace Silent

theorem refl (e : MarketMakerEngine F) : Silent e e :=
  ⟨rfl, rfl, List.prefix_refl _, rfl, fun _ => rfl⟩

theorem trans (h : Silent e e') (h' : Silent e' e'') : Silent e e'' where
  settings := h'.settings.trans h.settings
  prices := h'.prices.trans h.prices
  extended := h.extended.trans h'.extended
  toldSettings := h'.toldSettings.trans h.toldSettings
  toldPrices symbol := (h'.toldPrices symbol).trans (h.toldPrices symbol)

theorem of_eq (hc : e'.config = e.config) (hp : e'.prices = e.prices) (he : e'.events = e.events) :
    Silent e e' :=
  ⟨congrArg _ hc, hp, he ▸ List.prefix_refl _, congrArg _ he, fun _ => congrArg _ he⟩

theorem clearInstrumentSlot (e : MarketMakerEngine F) (key : InstrumentKey) (isBuy : Bool) :
    Silent e (e.clearInstrumentSlot key isBuy) := by
  unfold MarketMakerEngine.clearInstrumentSlot
  split
  · exact .of_eq rfl rfl rfl
  · exact .refl e

theorem recordLegs (e : MarketMakerEngine F) (key : InstrumentKey) (placed : Slots) :
    Silent e (e.recordLegs key placed) := by
  unfold MarketMakerEngine.recordLegs
  split_ifs
  · exact .refl e
  · exact .of_eq rfl rfl rfl

theorem untrack_foldl (e : MarketMakerEngine F) (ids : List OrderId) :
    Silent e (ids.foldl MarketMakerEngine.untrack e) := by
  induction ids generalizing e with
  | nil => exact .refl e
  | cons i ids ih =>
    have hfirst : Silent e (e.untrack i) := .of_eq rfl rfl rfl
    exact hfirst.trans (ih (e.untrack i))

/-- Events of quotes and fills. -/
theorem send (e : MarketMakerEngine F) {event : MarketMakerEvent F} (hs : event.settings = none)
    (hp : ∀ symbol, event.priceOf symbol = none) : Silent e (e.send event) where
  settings := rfl
  prices := rfl
  extended := List.prefix_append _ _
  toldSettings := by simp [MarketMakerEngine.send, hs]
  toldPrices symbol := by simp [MarketMakerEngine.send, hp]

end Silent
end MarketMakerEngine

namespace Desk
variable [Upstream B] {d : Desk B F}

theorem updateStep_silent [F64 F] (d : Desk B F) {pc : UpdatePc F}
    (h : ∀ symbol p, pc ≠ .write symbol p) : d.engine.Silent (d.updateStep pc).1.engine := by
  cases pc with
  | write symbol p => exact absurd rfl (h symbol p)
  | readSwitch symbol => exact .refl _
  | readSymbol symbol => exact .refl _
  | readPrice symbol =>
    simp only [updateStep]
    cases d.engine.getPrice symbol <;> exact .refl _
  | readConfig symbol spot => exact .refl _
  | quoting work =>
    cases work with
    | nil => exact .refl _
    | cons i rest =>
      simp only [updateStep]
      cases d.quoteOf i with
      | none => exact .refl _
      | some q =>
        dsimp only
        split_ifs <;> exact .refl _
  | cancelStale job stale left =>
    cases left with
    | nil => exact .untrack_foldl d.engine _
    | cons i left => exact .refl _
  | unindex job => exact .of_eq rfl rfl rfl
  | placeBid job =>
    have hkeep := placeOnBook_engine d job.addr true job.quote.bidPrice job.quote.bidSize
    simp only [updateStep]
    cases hplace : d.placeOnBook job.addr true job.quote.bidPrice job.quote.bidSize with
    | mk id d' =>
      rw [hplace] at hkeep
      cases id <;> exact hkeep ▸ .refl _
  | trackBid job id => exact .of_eq rfl rfl rfl
  | placeAsk job bid =>
    have hkeep := placeOnBook_engine d job.addr false job.quote.askPrice job.quote.askSize
    simp only [updateStep]
    cases hplace : d.placeOnBook job.addr false job.quote.askPrice job.quote.askSize with
    | mk id d' =>
      rw [hplace] at hkeep
      cases id <;> exact hkeep ▸ .refl _
  | trackAsk job bid id => exact .of_eq rfl rfl rfl
  | record job placed => exact (Silent.recordLegs _ _ _).trans (.send _ rfl fun _ => rfl)
  | done => exact .refl _

/-- Only `write` leads to a call that writes. -/
theorem updateStep_ne_write [F64 F] (d : Desk B F) (pc : UpdatePc F) (symbol : String) (p : ℕ) :
    (d.updateStep pc).2 ≠ .write symbol p := by
  cases pc with
  | readSwitch s => simp only [updateStep]; split_ifs <;> simp
  | readSymbol s => simp only [updateStep]; split_ifs <;> simp
  | readPrice s => simp only [updateStep]; cases d.engine.getPrice s <;> simp
  | quoting work =>
    cases work with
    | nil => simp [updateStep]
    | cons i rest =>
      simp only [updateStep]
      cases d.quoteOf i with
      | none => simp
      | some q =>
        dsimp only
        split_ifs <;> simp
  | cancelStale job stale left => cases left <;> simp [updateStep]
  | placeBid job =>
    simp only [updateStep]
    cases d.placeOnBook job.addr true job.quote.bidPrice job.quote.bidSize with
    | mk id d' => cases id <;> simp
  | placeAsk job bid =>
    simp only [updateStep]
    cases d.placeOnBook job.addr false job.quote.askPrice job.quote.askSize with
    | mk id d' => cases id <;> simp
  | _ => simp [updateStep]

theorem cancelStep_silent (d : Desk B F) (pc : CancelPc) :
    d.engine.Silent (d.cancelStep pc).1.engine := by
  cases pc with
  | remove i =>
    simp only [cancelStep]
    cases d.engine.activeOrders.lookup i with
    | none => exact .refl _
    | some o => exact .of_eq rfl rfl rfl
  | unslot i o => exact .clearInstrumentSlot _ _ _
  | onBook i o =>
    simp only [cancelStep]
    split_ifs <;> exact .refl _
  | done => exact .refl _

theorem fillStep_silent (d : Desk B F) (pc : FillPc) :
    d.engine.Silent (d.fillStep pc).1.engine := by
  cases pc with
  | gate i p q => exact .refl _
  | take i p q =>
    simp only [fillStep]
    cases d.engine.activeOrders.lookup i with
    | none => exact .refl _
    | some o =>
      dsimp only
      split_ifs <;> exact .of_eq rfl rfl rfl
  | unslot i o p reported => exact .clearInstrumentSlot _ _ _
  | announce i o p reported =>
    simp only [fillStep]
    split_ifs
    all_goals first
      | exact .send _ rfl fun _ => rfl
      | exact .refl _
  | done => exact .refl _

end Desk

namespace ControlPc
variable [Upstream B] [F64 F] {d : Desk B F} {c : ControlPc F}

def returned : ControlPc F → Bool
  | .done => true
  | _ => false

/-- The call is past the price it wrote. -/
def Begun : ControlPc F → Prop
  | .update pc => ∀ symbol p, pc ≠ .write symbol p
  | .requoting pc _ => ∀ symbol p, pc ≠ .write symbol p
  | _ => True

omit [F64 F] in
theorem begun_of (op : Operation F) : (of op).Begun := by
  cases op <;> exact trivial

omit [F64 F] in
theorem not_owes_of (op : Operation F) (symbol : String) : (of op).owedPrice symbol = none := by
  cases op <;> rfl

/-- What the steps of a call do that write no price and no setting and announce none. -/
structure Aside (d : Desk B F) (c : ControlPc F) (d' : Desk B F) (c' : ControlPc F) : Prop where
  silent : d.engine.Silent d'.engine
  owes : c.Owes → c'.Owes
  owed : ∀ symbol, c.owedPrice symbol = none ∧ c'.owedPrice symbol = none

/-- What one step of a call does to what is announced. -/
theorem step_cases (hb : c.Begun) :
    (∃ symbol p, c = .insertPrice symbol p) ∨ (∃ symbol p, c = .sendPrice symbol p) ∨
    (∃ on, c = .writeEnabled on) ∨ (∃ parameter v, c = .writeParameter parameter v ∧
      F64.isFinite v = true) ∨ (∃ requote, c = .announce requote) ∨
    Aside d c (d.controlStep c).1 (d.controlStep c).2 := by
  have aside : Aside d c (d.controlStep c).1 (d.controlStep c).2 →
      (∃ symbol p, c = .insertPrice symbol p) ∨ (∃ symbol p, c = .sendPrice symbol p) ∨
      (∃ on, c = .writeEnabled on) ∨ (∃ parameter v, c = .writeParameter parameter v ∧
        F64.isFinite v = true) ∨ (∃ requote, c = .announce requote) ∨
      Aside d c (d.controlStep c).1 (d.controlStep c).2 :=
    fun h => .inr (.inr (.inr (.inr (.inr h))))
  cases c with
  | insertPrice symbol p => exact .inl ⟨symbol, p, rfl⟩
  | sendPrice symbol p => exact .inr (.inl ⟨symbol, p, rfl⟩)
  | writeEnabled on => exact .inr (.inr (.inl ⟨on, rfl⟩))
  | announce requote => exact .inr (.inr (.inr (.inr (.inl ⟨requote, rfl⟩))))
  | writeParameter parameter v =>
    cases hv : F64.isFinite v with
    | true => exact .inr (.inr (.inr (.inl ⟨parameter, v, rfl, hv⟩)))
    | false =>
      apply aside
      simp only [Desk.controlStep, hv]
      exact ⟨.refl _, nofun, fun _ => ⟨rfl, rfl⟩⟩
  | writeSymbol symbol on =>
    apply aside
    refine ⟨⟨rfl, rfl, List.prefix_refl _, rfl, fun _ => rfl⟩, nofun, fun _ => ⟨rfl, ?_⟩⟩
    simp only [Desk.controlStep]
    split_ifs <;> rfl
  | listSymbols => exact aside ⟨.refl _, nofun, fun _ => ⟨rfl, rfl⟩⟩
  | requoting pc todo =>
    apply aside
    by_cases hpc : pc = .done
    · subst hpc
      cases todo <;> exact ⟨.refl _, nofun, fun _ => ⟨rfl, rfl⟩⟩
    · have hstep : d.controlStep (.requoting pc todo) =
          ((d.updateStep pc).1, .requoting (d.updateStep pc).2 todo) := by
        cases pc <;> first | rfl | exact absurd rfl hpc
      rw [hstep]
      exact ⟨d.updateStep_silent hb, nofun, fun _ => ⟨rfl, rfl⟩⟩
  | listOrders sweep =>
    apply aside
    refine ⟨.refl _, fun h => ?_, fun _ => ⟨rfl, rfl⟩⟩
    cases sweep <;> exact h
  | cancelling sweep pc todo =>
    apply aside
    by_cases hpc : pc = .done
    · subst hpc
      cases todo with
      | nil =>
        cases sweep with
        | symbol s => exact ⟨.refl _, nofun, fun _ => ⟨rfl, rfl⟩⟩
        | all => exact ⟨.of_eq rfl rfl rfl, nofun, fun _ => ⟨rfl, rfl⟩⟩
        | shutdown => exact ⟨.of_eq rfl rfl rfl, fun _ => trivial, fun _ => ⟨rfl, rfl⟩⟩
      | cons i todo =>
        refine ⟨?_, fun h => ?_, fun _ => ⟨rfl, ?_⟩⟩
        · cases sweep <;> exact .refl _
        · cases sweep <;> exact h
        · cases sweep <;> rfl
    · have hstep : d.controlStep (.cancelling sweep pc todo) =
          ((d.cancelStep pc).1, .cancelling sweep (d.cancelStep pc).2 todo) := by
        cases pc <;> first | (cases sweep <;> rfl) | exact absurd rfl hpc
      rw [hstep]
      refine ⟨d.cancelStep_silent pc, fun h => ?_, fun _ => ⟨rfl, rfl⟩⟩
      cases sweep <;> exact h
  | update pc =>
    apply aside
    by_cases hpc : pc = .done
    · subst hpc
      exact ⟨.refl _, nofun, fun _ => ⟨rfl, rfl⟩⟩
    · have hstep : d.controlStep (.update pc) =
          ((d.updateStep pc).1, .update (d.updateStep pc).2) := by
        cases pc <;> first | rfl | exact absurd rfl hpc
      rw [hstep]
      exact ⟨d.updateStep_silent hb, nofun, fun _ => ⟨rfl, rfl⟩⟩
  | fill pc =>
    apply aside
    by_cases hpc : pc = .done
    · subst hpc
      exact ⟨.refl _, nofun, fun _ => ⟨rfl, rfl⟩⟩
    · have hstep : d.controlStep (.fill pc) = ((d.fillStep pc).1, .fill (d.fillStep pc).2) := by
        cases pc <;> first | rfl | exact absurd rfl hpc
      rw [hstep]
      exact ⟨d.fillStep_silent pc, nofun, fun _ => ⟨rfl, rfl⟩⟩
  | done => exact aside ⟨.refl _, nofun, fun _ => ⟨rfl, rfl⟩⟩

theorem begun_step (hb : c.Begun) : (d.controlStep c).2.Begun := by
  cases c with
  | sendPrice symbol p => exact nofun
  | writeEnabled on =>
    simp only [Desk.controlStep]
    split_ifs <;> exact trivial
  | writeSymbol symbol on =>
    simp only [Desk.controlStep]
    split_ifs <;> exact trivial
  | writeParameter parameter v =>
    simp only [Desk.controlStep]
    split_ifs <;> exact trivial
  | announce requote =>
    simp only [Desk.controlStep]
    split_ifs <;> exact trivial
  | listSymbols => exact nofun
  | requoting pc todo =>
    by_cases hpc : pc = .done
    · subst hpc
      cases todo with
      | nil => exact trivial
      | cons symbol todo => exact nofun
    · have hstep : (d.controlStep (.requoting pc todo)).2 = .requoting (d.updateStep pc).2 todo := by
        cases pc <;> first | rfl | exact absurd rfl hpc
      rw [hstep]
      exact d.updateStep_ne_write pc
  | cancelling sweep pc todo =>
    cases pc with
    | done =>
      cases todo <;> cases sweep <;> exact trivial
    | _ => cases sweep <;> exact trivial
  | update pc =>
    by_cases hpc : pc = .done
    · subst hpc
      exact trivial
    · have hstep : (d.controlStep (.update pc)).2 = .update (d.updateStep pc).2 := by
        cases pc <;> first | rfl | exact absurd rfl hpc
      rw [hstep]
      exact d.updateStep_ne_write pc
  | fill pc => cases pc <;> exact trivial
  | _ => exact trivial

/-- What was broadcast stays broadcast. -/
theorem extends_step (hb : c.Begun) : d.engine.events <+: (d.controlStep c).1.engine.events := by
  rcases step_cases (d := d) hb with ⟨symbol, p, rfl⟩ | ⟨symbol, p, rfl⟩ | ⟨on, rfl⟩ |
    ⟨parameter, v, rfl, hv⟩ | ⟨requote, rfl⟩ | h
  · exact List.prefix_refl _
  · exact List.prefix_append _ _
  · exact List.prefix_refl _
  · simp only [Desk.controlStep, hv, if_true]
    exact List.prefix_refl _
  · exact List.prefix_append _ _
  · exact h.silent.extended

/-- The settings are announced from the configuration as it is. -/
theorem announces (hb : c.Begun) : Announces (fun d : Desk B F => d.engine.config.settings)
    (fun d => d.engine.events.filterMap MarketMakerEvent.settings) Owes d c (d.controlStep c).1
    (d.controlStep c).2 := by
  rcases step_cases (d := d) hb with ⟨symbol, p, rfl⟩ | ⟨symbol, p, rfl⟩ | ⟨on, rfl⟩ |
    ⟨parameter, v, rfl, hv⟩ | ⟨requote, rfl⟩ | h
  · exact .quiet rfl rfl nofun
  · refine .quiet rfl ?_ nofun
    simp [Desk.controlStep, MarketMakerEngine.send, MarketMakerEvent.settings]
  · refine .write ?_
    simp only [Desk.controlStep]
    split_ifs <;> exact trivial
  · refine .write ?_
    simp only [Desk.controlStep, hv, if_true]
    exact trivial
  · refine .tell rfl ?_
    simp [Desk.controlStep, broadcastConfigChange, MarketMakerEngine.send,
      MarketMakerEvent.settings, MarketMakerConfig.settings]
  · exact .quiet h.silent.settings h.silent.toldSettings h.owes

/-- A price is announced as the call wrote it. -/
theorem echoes (hb : c.Begun) (symbol : String) :
    Echoes (fun d : Desk B F => d.engine.prices.lookup symbol)
      (fun d => d.engine.events.filterMap (MarketMakerEvent.priceOf symbol)) (owedPrice symbol) d c
      (d.controlStep c).1 (d.controlStep c).2 := by
  have quiet : ∀ {d' : Desk B F} {c' : ControlPc F}, d'.engine.prices = d.engine.prices →
      d'.engine.events.filterMap (MarketMakerEvent.priceOf symbol) =
        d.engine.events.filterMap (MarketMakerEvent.priceOf symbol) →
      c.owedPrice symbol = none → c'.owedPrice symbol = none →
      Echoes (fun d : Desk B F => d.engine.prices.lookup symbol)
        (fun d => d.engine.events.filterMap (MarketMakerEvent.priceOf symbol)) (owedPrice symbol)
        d c d' c' :=
    fun hp he hc hc' => .quiet (congrArg _ hp) he (hc'.trans hc.symm)
  rcases step_cases (d := d) hb with ⟨s, p, rfl⟩ | ⟨s, p, rfl⟩ | ⟨on, rfl⟩ |
    ⟨parameter, v, rfl, hv⟩ | ⟨requote, rfl⟩ | h
  · by_cases hs : s = symbol
    · subst hs
      exact .write p rfl (by simp [Desk.controlStep, MarketMakerEngine.insertPrice]) rfl (if_pos rfl)
    · refine .quiet ?_ rfl (if_neg hs)
      simp [Desk.controlStep, MarketMakerEngine.insertPrice, Ne.symm hs]
  · by_cases hs : s = symbol
    · subst hs
      refine .tell p (if_pos rfl) rfl ?_ rfl
      simp [Desk.controlStep, MarketMakerEngine.send, MarketMakerEvent.priceOf]
    · refine quiet rfl ?_ (if_neg hs) rfl
      simp [Desk.controlStep, MarketMakerEngine.send, MarketMakerEvent.priceOf, hs]
  · refine quiet rfl rfl rfl ?_
    simp only [Desk.controlStep]
    split_ifs <;> rfl
  · refine quiet ?_ ?_ rfl ?_ <;> simp only [Desk.controlStep, hv, if_true] <;> rfl
  · refine quiet rfl ?_ rfl ?_
    · simp [Desk.controlStep, broadcastConfigChange, MarketMakerEngine.send,
        MarketMakerEvent.priceOf]
    · simp only [Desk.controlStep]
      split_ifs <;> rfl
  · exact quiet h.silent.prices (h.silent.toldPrices symbol) (h.owed symbol).1 (h.owed symbol).2

end ControlPc

/-! A call that runs without interruption does what the sequential operation does. -/
section Alone
variable [Upstream B] [F64 F] {d d' : Desk B F}

/-- One call runs from one point to another with nobody else stepping. -/
abbrev Plays (c c' : Desk B F × ControlPc F) : Prop :=
  Relation.ReflTransGen (fun c c' => c.1.controlStep c.2 = c') c c'

theorem plays_update {pc : UpdatePc F} (h : Desk.Leads (d, pc) (d', .done)) :
    Plays (d, .update pc) (d', .done) := by
  have hlift : Plays (d, .update pc) (d', .update .done) := by
    refine h.lift' (fun c => (c.1, ControlPc.update c.2)) ?_
    rintro ⟨e, pc⟩ c' rfl
    by_cases hpc : pc = .done
    · subst hpc
      exact .refl
    · apply Relation.ReflTransGen.single
      cases pc <;> first | rfl | exact absurd rfl hpc
  exact hlift.tail rfl

theorem plays_requoting {pc : UpdatePc F} (h : Desk.Leads (d, pc) (d', .done))
    (todo : List String) : Plays (d, .requoting pc todo) (d', .requoting .done todo) := by
  refine h.lift' (fun c => (c.1, ControlPc.requoting c.2 todo)) ?_
  rintro ⟨e, pc⟩ c' rfl
  by_cases hpc : pc = .done
  · subst hpc
    exact .refl
  · apply Relation.ReflTransGen.single
    cases pc <;> first | rfl | exact absurd rfl hpc

theorem plays_requoteAll (d : Desk B F) (todo : List String) :
    Plays (d, .requoting .done todo) (todo.foldl (fun d symbol =>
      if d.engine.isSymbolEnabled symbol then d.requoteSymbol symbol else d) d, .done) := by
  induction todo generalizing d with
  | nil => exact .single rfl
  | cons symbol todo ih =>
    have hread : Desk.Leads (d, .readSymbol symbol)
        (if d.engine.isSymbolEnabled symbol then d.requoteSymbol symbol else d, .done) := by
      cases hs : d.engine.isSymbolEnabled symbol with
      | false =>
        apply Relation.ReflTransGen.single
        simp [Desk.updateStep, hs]
      | true =>
        have hfirst : d.updateStep (.readSymbol symbol) = (d, .readPrice symbol) := by
          simp [Desk.updateStep, hs]
        exact .head hfirst (Desk.leads_readPrice d symbol)
    exact .head rfl ((plays_requoting hread todo).trans (ih _))

theorem plays_cancelOrder (d : Desk B F) (sweep : Sweep) (i : OrderId) (todo : List OrderId) :
    Plays (d, .cancelling sweep (.remove i) todo)
      (d.cancelOrder i, .cancelling sweep .done todo) := by
  unfold Desk.cancelOrder
  cases h : d.engine.activeOrders.lookup i with
  | none =>
    apply Relation.ReflTransGen.single
    cases sweep <;> simp [Desk.controlStep, Desk.cancelStep, h]
  | some o =>
    have hfirst : d.controlStep (.cancelling sweep (.remove i) todo) =
        ({ d with engine := d.engine.untrack i }, .cancelling sweep (.unslot i o) todo) := by
      cases sweep <;> simp [Desk.controlStep, Desk.cancelStep, h]
    refine .head hfirst ?_
    cases sweep <;> exact .head rfl (.single rfl)

theorem plays_cancelling (d : Desk B F) (sweep : Sweep) (todo : List OrderId) :
    Plays (d, .cancelling sweep .done todo)
      (todo.foldl Desk.cancelOrder d, .cancelling sweep .done []) := by
  induction todo generalizing d with
  | nil => exact .refl
  | cons i todo ih =>
    have hfirst : d.controlStep (.cancelling sweep .done (i :: todo)) =
        (d, .cancelling sweep (.remove i) todo) := by
      cases sweep <;> rfl
    exact .head hfirst ((plays_cancelOrder d sweep i todo).trans (ih _))

theorem plays_setParameter (d : Desk B F) (parameter : Parameter) (v : F) :
    Plays (d, .writeParameter parameter v)
      (d.setParameter v (parameter.write d.engine.config v), .done) := by
  unfold Desk.setParameter
  cases hv : F64.isFinite v with
  | false =>
    apply Relation.ReflTransGen.single
    simp [Desk.controlStep, hv]
  | true =>
    have hfirst : d.controlStep (.writeParameter parameter v) =
        (d.writeConfig (parameter.write d.engine.config v), .announce true) := by
      simp [Desk.controlStep, hv]
    exact .head hfirst (.head rfl (.head rfl (plays_requoteAll _ _)))

theorem plays_fill {pc : FillPc}
    (h : Relation.ReflTransGen (fun c c' : Desk B F × FillPc => c.1.fillStep c.2 = c') (d, pc)
      (d', .done)) : Plays (d, .fill pc) (d', .done) := by
  have hlift : Plays (d, .fill pc) (d', .fill .done) := by
    refine h.lift' (fun c => (c.1, ControlPc.fill c.2)) ?_
    rintro ⟨e, pc⟩ c' rfl
    by_cases hpc : pc = .done
    · subst hpc
      exact .refl
    · apply Relation.ReflTransGen.single
      cases pc <;> first | rfl | exact absurd rfl hpc
  exact hlift.tail rfl

theorem plays_operation (d : Desk B F) (op : Operation F) :
    Plays (d, .of op) (op.apply d, .done) := by
  cases op with
  | updatePrice symbol p => exact .head rfl (.head rfl (plays_update (Desk.leads_readSwitch _ symbol)))
  | setEnabled on =>
    cases on with
    | true => exact .head rfl (.single rfl)
    | false =>
      exact .head rfl (.head rfl ((plays_cancelling _ .shutdown _).trans (.head rfl (.single rfl))))
  | setSymbolEnabled symbol on =>
    cases on with
    | true => exact .single rfl
    | false =>
      exact .head rfl (.head rfl ((plays_cancelling _ (.symbol symbol) _).trans (.single rfl)))
  | setSpreadMultiplier v => exact plays_setParameter d .spread v
  | setSizeScalar v => exact plays_setParameter d .size v
  | setDirectionalSkew v => exact plays_setParameter d .skew v
  | cancelAllOrders => exact .head rfl ((plays_cancelling d .all _).trans (.single rfl))
  | cancelSymbolOrders symbol =>
    exact .head rfl ((plays_cancelling d (.symbol symbol) _).trans (.single rfl))
  | onOrderFilled i p q => exact plays_fill (Desk.leads_onOrderFilled d i p q)

/-- No operation takes back what was broadcast. -/
theorem operation_events (d : Desk B F) (op : Operation F) :
    d.engine.events <+: (op.apply d).engine.events := by
  have hkeep : ∀ c', Plays (d, .of op) c' →
      d.engine.events <+: c'.1.engine.events ∧ c'.2.Begun := by
    intro c' h
    induction h with
    | refl => exact ⟨List.prefix_refl _, ControlPc.begun_of op⟩
    | tail _ hstep ih =>
      subst hstep
      exact ⟨ih.1.trans (ControlPc.extends_step ih.2), ControlPc.begun_step ih.2⟩
  exact (hkeep _ (plays_operation d op)).1

end Alone

/-- The engine with every call made of it so far. -/
abbrev Controls (B F : Type) := Pool (Desk B F) (ControlPc F)

/-- A call begins or makes its next step, or somebody else uses the books. -/
inductive ControlMove (F : Type) where
  | start (op : Operation F)
  | call (i : ℕ)
  | books (c : BookCall)

namespace Controls
variable [Upstream B] [F64 F] {p : Controls B F} {symbol : String}

def step (p : Controls B F) : ControlMove F → Controls B F
  | .start op => Pool.start p (.of op)
  | .call i => Pool.advance p i Desk.controlStep
  | .books c => { p with shared := { p.shared with market := c.apply p.shared.market } }

/-- A fresh engine over any books, and no calls yet. -/
def Start (p : Controls B F) : Prop :=
  p.calls = [] ∧ ∃ quoter, p.shared.engine = .new quoter

/-- A price of the symbol is written only while no other update of it has yet to announce one. -/
def Apart (symbol : String) (p : Controls B F) : ControlMove F → Prop
  | .call i => match p.calls[i]? with
    | some (.insertPrice s _) => s = symbol → p.results (ControlPc.owedPrice symbol) = []
    | _ => True
  | _ => True

instance (symbol : String) (p : Controls B F) : DecidablePred (Apart symbol p) := fun m => by
  unfold Apart
  split
  · split <;> infer_instance
  · infer_instance

/-- What holds between the steps of all calls. -/
structure Kept (p : Controls B F) : Prop where
  begun : ∀ c ∈ p.calls, c.Begun
  settings : p.Announced (fun d => d.engine.config.settings)
    (fun d => d.engine.events.filterMap MarketMakerEvent.settings) ControlPc.Owes
    MarketMakerConfig.standard.settings
  prices : ∀ symbol, p.Echoed (fun d => d.engine.prices.lookup symbol)
    (fun d => d.engine.events.filterMap (MarketMakerEvent.priceOf symbol))
    (ControlPc.owedPrice symbol)

omit [Upstream B] in
theorem Start.owed (h : Start p) (symbol : String) :
    p.results (ControlPc.owedPrice symbol) = [] := by
  rw [Pool.results, h.1]
  rfl

omit [Upstream B] in
theorem Start.kept (h : Start p) : Kept p := by
  have howed := h.owed
  obtain ⟨hcalls, quoter, he⟩ := h
  refine ⟨?_, .inr ?_, fun symbol => ⟨?_, fun _ => ⟨?_, howed symbol⟩⟩⟩
  · rw [hcalls]
    exact nofun
  · simp only [he]
    rfl
  · simp only [he]
    exact nofun
  · simp only [he]
    rfl

omit [Upstream B] in
theorem Start.inTurn (h : Start p) (symbol : String) :
    p.InTurn (fun d => d.engine.prices.lookup symbol)
      (fun d => d.engine.events.filterMap (MarketMakerEvent.priceOf symbol))
      (ControlPc.owedPrice symbol) := by
  obtain ⟨quoter, he⟩ := h.2
  refine .inl ⟨h.owed symbol, ?_⟩
  simp only [he]
  rfl

theorem Kept.step (h : Kept p) (m : ControlMove F) : Kept (Controls.step p m) := by
  cases m with
  | start op =>
    refine ⟨?_, h.settings.start _, fun symbol =>
      (h.prices symbol).start (ControlPc.not_owes_of op symbol)⟩
    intro c hc
    rcases List.mem_append.mp hc with hc | hc
    · exact h.begun c hc
    · obtain rfl := List.mem_singleton.mp hc
      exact ControlPc.begun_of op
  | books c => exact ⟨h.begun, h.settings, fun symbol => ⟨(h.prices symbol).written,
      (h.prices symbol).silent⟩⟩
  | call i =>
    have hb : ∀ c, p.calls[i]? = some c → c.Begun := fun c hc =>
      h.begun c (List.mem_of_getElem? hc)
    refine ⟨?_, h.settings.advance fun c hc => ControlPc.announces (hb c hc), fun symbol =>
      (h.prices symbol).advance fun c hc => ControlPc.echoes (hb c hc) symbol⟩
    intro c hc
    cases hi : p.calls[i]? with
    | none =>
      rw [show Controls.step p (.call i) = p from Pool.advance_none hi _] at hc
      exact h.begun c hc
    | some c₀ =>
      rw [show Controls.step p (.call i) = _ from Pool.advance_some hi _] at hc
      rcases List.mem_or_eq_of_mem_set hc with hc | rfl
      · exact h.begun c hc
      · exact ControlPc.begun_step (hb c₀ hi)

theorem reaches_kept {ok : Controls B F → ControlMove F → Prop} (h : Reaches Start step ok p) :
    Kept p :=
  h.invariant (fun _ => Start.kept) fun _ m hk _ => hk.step m

theorem inTurn_step (hk : Kept p) (h : p.InTurn (fun d => d.engine.prices.lookup symbol)
    (fun d => d.engine.events.filterMap (MarketMakerEvent.priceOf symbol))
    (ControlPc.owedPrice symbol)) {m : ControlMove F} (hm : Apart symbol p m) :
    Pool.InTurn (fun d => d.engine.prices.lookup symbol)
      (fun d => d.engine.events.filterMap (MarketMakerEvent.priceOf symbol))
      (ControlPc.owedPrice symbol) (Controls.step p m) := by
  cases m with
  | start op => exact h.start (ControlPc.not_owes_of op symbol)
  | books c => exact h
  | call i =>
    have hb : ∀ c, p.calls[i]? = some c → c.Begun := fun c hc =>
      hk.begun c (List.mem_of_getElem? hc)
    refine h.advance (fun c hc => ControlPc.echoes (hb c hc) symbol) ?_
    intro c v hc hnone hsome
    rcases ControlPc.step_cases (d := p.shared) (hb c hc) with ⟨s, q, rfl⟩ | ⟨s, q, rfl⟩ |
      ⟨on, rfl⟩ | ⟨parameter, w, rfl, hw⟩ | ⟨requote, rfl⟩ | ha
    · by_cases hs : s = symbol
      · subst hs
        simp only [Apart, hc] at hm
        exact hm trivial
      · rw [show ControlPc.owedPrice symbol (p.shared.controlStep (.insertPrice s q)).2 = none from
          if_neg hs] at hsome
        cases hsome
    · cases hsome
    · simp only [Desk.controlStep] at hsome
      split_ifs at hsome <;> cases hsome
    · simp only [Desk.controlStep, hw, if_true] at hsome
      cases hsome
    · simp only [Desk.controlStep] at hsome
      split_ifs at hsome <;> cases hsome
    · rw [(ha.owed symbol).2] at hsome
      cases hsome

theorem reaches_inTurn {ok : Controls B F → ControlMove F → Prop} (h : Reaches Start step ok p)
    (hapart : ∀ p m, ok p m → Apart symbol p m) :
    p.InTurn (fun d => d.engine.prices.lookup symbol)
      (fun d => d.engine.events.filterMap (MarketMakerEvent.priceOf symbol))
      (ControlPc.owedPrice symbol) := by
  induction h with
  | start h => exact h.inTurn symbol
  | next h hok ih => exact inTurn_step (reaches_kept h) ih (hapart _ _ hok)

/-- Once every call has returned, whatever their interleaving, a dashboard that heard every event
shows the settings in force and has a price exactly for the symbols with one; the price of a symbol
was announced, and it is the one shown if no two updates of the symbol overlapped. -/
theorem dashboard_right {ok : Controls B F → ControlMove F → Prop} (h : Reaches Start step ok p)
    (hdone : ∀ c ∈ p.calls, c.returned = true) :
    let shown := p.shared.engine.events.foldl Dashboard.hear .fresh
    shown.settings = p.shared.engine.config.settings ∧
    ∀ symbol, ((shown.prices.lookup symbol).isSome = (p.shared.engine.getPrice symbol).isSome) ∧
      (∀ price, p.shared.engine.getPrice symbol = some price →
        .priceUpdated symbol price ∈ p.shared.engine.events) ∧
      ((∀ p m, ok p m → Apart symbol p m) →
        shown.prices.lookup symbol = p.shared.engine.getPrice symbol) := by
  intro shown
  have hk := reaches_kept h
  have howes : ∀ c ∈ p.calls, ¬ c.Owes := by
    intro c hc
    have hret := hdone c hc
    cases c <;> first | exact id | cases hret
  refine ⟨(Dashboard.hear_settings _).trans (hk.settings.settled howes), fun symbol => ?_⟩
  have howed : p.results (ControlPc.owedPrice symbol) = [] := by
    rw [Pool.results, List.filterMap_eq_nil_iff]
    intro c hc
    have hret := hdone c hc
    cases c <;> first | rfl | cases hret
  have hshown : shown.prices.lookup symbol =
      (p.shared.engine.events.filterMap (MarketMakerEvent.priceOf symbol)).getLast? := by
    rw [show shown.prices.lookup symbol = _ from Dashboard.hear_prices symbol _]
    exact Option.or_none
  obtain ⟨hwritten, hsilent⟩ := hk.prices symbol
  rw [howed] at hwritten
  refine ⟨?_, fun price hprice => ?_, fun hapart => ?_⟩
  · rw [hshown]
    cases hp : p.shared.engine.getPrice symbol with
    | none =>
      rw [(hsilent hp).1]
      rfl
    | some price =>
      rcases hwritten price hp with htold | hnone
      · rw [Option.isSome_some, List.getLast?_isSome]
        exact List.ne_nil_of_mem htold
      · cases hnone
  · rcases hwritten price hprice with htold | hnone
    · obtain ⟨event, hevent, hof⟩ := List.mem_filterMap.mp htold
      cases event with
      | priceUpdated s q =>
        simp only [MarketMakerEvent.priceOf] at hof
        split_ifs at hof with hs
        obtain rfl := Option.some.inj hof
        exact hs ▸ hevent
      | _ => cases hof
    · cases hnone
  · rcases reaches_inTurn h hapart with ⟨-, hlast⟩ | ⟨v, hone, -⟩
    · rw [hshown]
      exact hlast
    · rw [howed] at hone
      cases hone

section Reference

/-- An engine over no books. -/
def unused : Controls ReferenceBook ℚ := ⟨.new (flatQuoter 5), []⟩

/-- Two setters overlap, and one update of a price. -/
def overlapping : List (ControlMove ℚ) :=
  [.start (.setSizeScalar (1 / 2)), .start (.setEnabled true), .start (.updatePrice "BTC" 100),
    .call 0, .call 1, .call 2, .call 2, .call 1, .call 0, .call 0, .call 0] ++
    List.replicate 6 (.call 2)

theorem dashboard_right_overlapping :
    let p := overlapping.foldl step unused
    let shown := p.shared.engine.events.foldl Dashboard.hear .fresh
    shown.settings = p.shared.engine.config.settings ∧
      shown.prices.lookup "BTC" = p.shared.engine.getPrice "BTC" := by
  have hrun : Reaches Start step (Apart "BTC") (overlapping.foldl step unused) :=
    Reaches.run (.start ⟨rfl, _, rfl⟩) (by decide +kernel)
  have hright := dashboard_right hrun (by decide +kernel)
  exact ⟨hright.1, (hright.2 "BTC").2.2 fun _ _ h => h⟩

/-- Two updates of a price overlap, and the older price is announced last. -/
example :
    let p := ([.start (.updatePrice "BTC" 100), .start (.updatePrice "BTC" 101), .call 0, .call 1,
      .call 1, .call 0] : List (ControlMove ℚ)).foldl step unused
    (p.shared.engine.events.foldl Dashboard.hear .fresh).prices.lookup "BTC" = some 100 ∧
      p.shared.engine.getPrice "BTC" = some 101 := by
  decide +kernel

end Reference
end Controls
end MarketMaker
end OptionChainBackend
