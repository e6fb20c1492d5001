import OptionChainBackend.MarketMaker.KillSwitch

/-!
The switch of one symbol. Every path that quotes checks it, so a symbol that is switched off has
no quotes; switching it off leaves every other symbol alone.
-/
namespace OptionChainBackend
namespace MarketMaker
open Foundation Upstream Exchange MarketMakerEngine

namespace MarketMakerEngine
variable {F : Type} {e e' : MarketMakerEngine F} {symbol : String}

/-- Some tracked order is a quote on the symbol. -/
def QuotesOn (e : MarketMakerEngine F) (symbol : String) : Prop :=
  ∃ i o, e.activeOrders.lookup i = some o ∧ o.symbol = symbol

theorem not_quotesOn_of_empty (h : ∀ i, e.activeOrders.lookup i = none) : ¬ e.QuotesOn symbol := by
  rintro ⟨i, o, ho, -⟩
  rw [h i] at ho
  cases ho

theorem Elsewhere.quotesOn {a : OptionAddr} (h : Elsewhere (.new a) e e')
    (hne : a.underlying ≠ symbol) (hq : e'.QuotesOn symbol) : e.QuotesOn symbol := by
  obtain ⟨i, o, ho, hs⟩ := hq
  have hkey : InstrumentKey.fromOrder o ≠ .new a := by
    intro hk
    exact hne ((congrArg InstrumentKey.symbol hk).symm.trans hs)
  exact ⟨i, o, (h.active i o hkey).mp ho, hs⟩

/-- A fill rewrites or drops the order, it never moves it to another symbol. -/
theorem onOrderFilled_quotesOn (showId : OrderId → String) (i : OrderId) (price q : ℕ)
    (hq : (e.onOrderFilled showId i price q).QuotesOn symbol) : e.QuotesOn symbol := by
  rcases e.onOrderFilled_cases showId i price q with ⟨-, he⟩ | ⟨o, events, -, hi, he⟩
  · rwa [he] at hq
  · rw [he] at hq
    obtain ⟨j, o', hj, hs⟩ := hq
    change (e.takeFill i o q).activeOrders.lookup j = some o' at hj
    rw [lookup_takeFill] at hj
    split_ifs at hj
    · obtain rfl := Option.some.inj hj
      exact ⟨i, o, hi, hs⟩
    · exact ⟨j, o', hj, hs⟩

theorem isSymbolEnabled_congr (h : e'.settings = e.settings) :
    e'.isSymbolEnabled symbol = e.isSymbolEnabled symbol := by
  have hconfig : e'.config = e.config := congrArg (·.2.1) h
  simp only [isSymbolEnabled, hconfig]

end MarketMakerEngine

namespace Desk
variable {B F : Type} [Upstream B] {d : Desk B F} {reported : OrderId → ℕ} {symbol : String}

theorem cancelOrder_quotesOn (i : OrderId) (hq : (d.cancelOrder i).engine.QuotesOn symbol) :
    d.engine.QuotesOn symbol := by
  obtain ⟨j, o, ho, hs⟩ := hq
  rw [cancelOrder_lookup] at ho
  split_ifs at ho
  exact ⟨j, o, ho, hs⟩

/-- Cancelling an order of one symbol touches no book of another. -/
theorem cancelOrder_getOrder {i j : OrderId} {a : OptionAddr}
    (h : ∀ o, d.engine.activeOrders.lookup i = some o → o.symbol ≠ a.underlying) :
    (d.cancelOrder i).market.getOrder a j = d.market.getOrder a j := by
  unfold Desk.cancelOrder
  cases hi : d.engine.activeOrders.lookup i with
  | none => rfl
  | some o =>
    have hne : a ≠ o.addr := by
      rintro rfl
      exact h o hi rfl
    dsimp only
    split_ifs
    · simp [cancelOnBook, Exchange.cancelOrder, Exchange.getOrder, Function.update_of_ne hne]
    · rfl

theorem foldl_cancelOrder_getOrder {ids : List OrderId} {a : OptionAddr} (j : OrderId)
    (h : ∀ i ∈ ids, ∀ o, d.engine.activeOrders.lookup i = some o → o.symbol ≠ a.underlying) :
    (ids.foldl Desk.cancelOrder d).market.getOrder a j = d.market.getOrder a j := by
  induction ids generalizing d with
  | nil => rfl
  | cons i ids ih =>
    have hhead : ∀ o, d.engine.activeOrders.lookup i = some o → o.symbol ≠ a.underlying :=
      h i List.mem_cons_self
    rw [List.foldl_cons, ih, cancelOrder_getOrder hhead]
    intro k hk o ho
    rw [cancelOrder_lookup] at ho
    split_ifs at ho
    exact h k (List.mem_cons_of_mem i hk) o ho

omit [Upstream B] in
theorem mem_cancelSymbolOrders {i : OrderId} : i ∈ (d.engine.activeOrders.select
    fun _ o => o.symbol = symbol).map Prod.fst ↔
      ∃ o, d.engine.activeOrders.lookup i = some o ∧ o.symbol = symbol := by
  simp [Table.mem_select]

variable [LawfulUpstream B]

theorem Tidy.cancelSymbolOrders_lookup (h : d.Tidy reported) (hc : CancelRemoves B)
    (i : OrderId) (o : ActiveOrderInfo) :
    (d.cancelSymbolOrders symbol).engine.activeOrders.lookup i = some o ↔
      d.engine.activeOrders.lookup i = some o ∧ o.symbol ≠ symbol := by
  have hlook := (h.foldl_cancelOrder hc ((d.engine.activeOrders.select
    fun _ o => o.symbol = symbol).map Prod.fst)).2.2 i
  rw [show (d.cancelSymbolOrders symbol).engine.activeOrders.lookup i = _ from hlook]
  split_ifs with hm
  · obtain ⟨o', ho', hs'⟩ := mem_cancelSymbolOrders.mp hm
    rw [ho']
    constructor
    · intro hn
      cases hn
    · rintro ⟨hs, hne⟩
      obtain rfl := Option.some.inj hs
      exact absurd hs' hne
  · constructor
    · intro ho
      exact ⟨ho, fun hs => hm (mem_cancelSymbolOrders.mpr ⟨o, ho, hs⟩)⟩
    · exact And.left

omit [LawfulUpstream B] in
theorem cancelSymbolOrders_getOrder {a : OptionAddr} (j : OrderId) (hne : a.underlying ≠ symbol) :
    (d.cancelSymbolOrders symbol).market.getOrder a j = d.market.getOrder a j := by
  apply foldl_cancelOrder_getOrder
  intro i hi o ho
  obtain ⟨o', ho', hs⟩ := mem_cancelSymbolOrders.mp hi
  rw [ho'] at ho
  obtain rfl := Option.some.inj ho
  exact hs ▸ hne.symm

variable [F64 F]

/-- A requote of one symbol quotes no other. -/
theorem Tidy.requoteSymbol_quotesOn (h : d.Tidy reported) (hc : CancelRemoves B) {name : String}
    (hne : name ≠ symbol) (hq : (d.requoteSymbol name).engine.QuotesOn symbol) :
    d.engine.QuotesOn symbol := by
  unfold Desk.requoteSymbol at hq
  cases hp : d.engine.getPrice name with
  | none => simpa only [hp] using hq
  | some spotCents =>
    simp only [hp] at hq
    split_ifs at hq
    · revert hq
      refine (List.foldlRecOn (motive := fun d' : Desk B F => d'.Tidy reported ∧
        (d'.engine.QuotesOn symbol → d.engine.QuotesOn symbol)) _ _ ⟨h, id⟩ ?_).2
      intro d' hd' i _
      have hr := hd'.1.updateQuote hc (d.requoteContext name spotCents i.1) i.2.1 i.2.2
      exact ⟨hr.tidy, fun hq => hd'.2 (hr.elsewhere.quotesOn hne hq)⟩
    · exact hq

/-- A requote of everything quotes only symbols that are switched on. -/
theorem Tidy.requoteAll_quotesOn (h : d.Tidy reported) (hc : CancelRemoves B)
    (hoff : d.engine.isSymbolEnabled symbol = false) (hq : d.requoteAll.engine.QuotesOn symbol) :
    d.engine.QuotesOn symbol := by
  unfold Desk.requoteAll at hq
  revert hq
  refine (List.foldlRecOn (motive := fun d' => Kept d d' reported ∧
    (d'.engine.QuotesOn symbol → d.engine.QuotesOn symbol)) _ _ ⟨⟨h, rfl, rfl⟩, id⟩ ?_).2
  intro d' hd' name _
  split_ifs with hon
  · have hr := hd'.1.tidy.requoteSymbol hc name
    have hne : name ≠ symbol := by
      rintro rfl
      rw [isSymbolEnabled_congr hd'.1.settings, hoff] at hon
      cases hon
    refine ⟨⟨hr.tidy, hr.catalog.trans hd'.1.catalog, hr.settings.trans hd'.1.settings⟩, ?_⟩
    intro hq
    exact hd'.2 (hd'.1.tidy.requoteSymbol_quotesOn hc hne hq)
  · exact hd'

/-- A symbol that is switched off has no tracked quote. -/
def SymbolOff (d : Desk B F) : Prop :=
  ∀ symbol, d.engine.isSymbolEnabled symbol = false → ¬ d.engine.QuotesOn symbol

namespace SymbolOff

omit [Upstream B] [LawfulUpstream B] [F64 F]

/-- A change that adds no quote and turns no switch. -/
theorem fewer {d' : Desk B F} (h : d.SymbolOff)
    (hset : d'.engine.config.symbolEnabled = d.engine.config.symbolEnabled)
    (hq : ∀ symbol, d'.engine.QuotesOn symbol → d.engine.QuotesOn symbol) : d'.SymbolOff := by
  intro symbol hoff hquotes
  rw [isSymbolEnabled, hset] at hoff
  exact h symbol hoff (hq symbol hquotes)

theorem empty (h : ∀ i, d.engine.activeOrders.lookup i = none) : d.SymbolOff :=
  fun _ _ => not_quotesOn_of_empty h

variable [Upstream B]

theorem foldl_cancelOrder (h : d.SymbolOff) (ids : List OrderId) :
    (ids.foldl Desk.cancelOrder d).SymbolOff := by
  induction ids generalizing d with
  | nil => exact h
  | cons i ids ih =>
    apply ih
    apply h.fewer
    · exact congrArg (·.2.1.symbolEnabled) (d.cancelOrder_settings i)
    · exact fun symbol => cancelOrder_quotesOn i

variable [LawfulUpstream B] [F64 F]

theorem requoteSymbol (h : d.SymbolOff) (ht : d.Tidy reported) (hc : CancelRemoves B)
    (hon : d.engine.isSymbolEnabled symbol = true) : (d.requoteSymbol symbol).SymbolOff := by
  intro name hoff
  rw [isSymbolEnabled_congr (ht.requoteSymbol hc symbol).settings] at hoff
  have hne : symbol ≠ name := by
    rintro rfl
    rw [hon] at hoff
    cases hoff
  exact fun hq => h name hoff (ht.requoteSymbol_quotesOn hc hne hq)

theorem requoteAll (h : d.SymbolOff) (ht : d.Tidy reported) (hc : CancelRemoves B) :
    d.requoteAll.SymbolOff := by
  intro name hoff hq
  rw [isSymbolEnabled_congr (ht.requoteAll hc).settings] at hoff
  exact h name hoff (ht.requoteAll_quotesOn hc hoff hq)

theorem setParameter (h : d.SymbolOff) (ht : d.Tidy reported) (hc : CancelRemoves B) (v : F)
    {config : MarketMakerConfig F}
    (hsame : config.symbolEnabled = d.engine.config.symbolEnabled) :
    (d.setParameter v config).SymbolOff := by
  unfold Desk.setParameter
  split_ifs
  · have hw : Tidy { d with
        engine := (d.writeConfig config).engine.broadcastConfigChange } reported := ht.congr rfl rfl
    have hoff : SymbolOff { d with
        engine := (d.writeConfig config).engine.broadcastConfigChange } :=
      h.fewer hsame fun _ => id
    exact hoff.requoteAll hw hc
  · exact h

omit [F64 F] in
theorem setSymbolEnabled (h : d.SymbolOff) (ht : d.Tidy reported) (hc : CancelRemoves B)
    (name : String) (on : Bool) : (d.setSymbolEnabled name on).SymbolOff := by
  intro symbol hoff
  have hw : Tidy (d.writeConfig { d.engine.config with
      symbolEnabled := d.engine.config.symbolEnabled.insert name on }) reported := ht.congr rfl rfl
  cases on with
  | true =>
    rintro ⟨i, o, ho, hs⟩
    refine h symbol ?_ ⟨i, o, ho, hs⟩
    simp only [Desk.setSymbolEnabled, if_true, writeConfig, isSymbolEnabled,
      Table.lookup_insert_eq] at hoff ⊢
    split_ifs at hoff with hname
    · cases hoff
    · exact hoff
  | false =>
    rintro ⟨i, o, ho, hs⟩
    obtain ⟨ho, hne⟩ := (hw.cancelSymbolOrders_lookup hc i o).mp ho
    have hset : (d.setSymbolEnabled name false).engine.settings = _ :=
      (hw.cancelSymbolOrders hc name).2
    rw [isSymbolEnabled_congr hset] at hoff
    refine h symbol ?_ ⟨i, o, ho, hs⟩
    simp only [writeConfig, isSymbolEnabled, Table.lookup_insert_eq] at hoff ⊢
    rwa [if_neg (fun he => hne (hs.trans he))] at hoff

theorem updatePrice (h : d.SymbolOff) (ht : d.Tidy reported) (hc : CancelRemoves B)
    (name : String) (p : ℕ) : (d.updatePrice name p).SymbolOff := by
  have hw : Tidy { d with
      engine := (d.engine.insertPrice name p).send (.priceUpdated name p) } reported :=
    ht.congr rfl rfl
  have hoff : SymbolOff { d with
      engine := (d.engine.insertPrice name p).send (.priceUpdated name p) } :=
    h.fewer rfl fun _ => id
  unfold Desk.updatePrice
  dsimp only
  split_ifs with hon
  · rw [Bool.and_eq_true] at hon
    exact hoff.requoteSymbol hw hc hon.2
  · exact hoff

end SymbolOff
end Desk

namespace Session
variable {B F : Type} [Upstream B] [LawfulUpstream B] [F64 F] {s : Session B F}

theorem symbolOff_step (h : s.desk.SymbolOff) (ht : s.Tidy) (hc : CancelRemoves B) (i : Step F) :
    (s.step i).desk.SymbolOff := by
  have hd : s.desk.Tidy s.reported := ht
  cases i with
  | books call => exact h.fewer rfl fun _ => id
  | engine op =>
    cases op with
    | updatePrice symbol p => exact h.updatePrice hd hc symbol p
    | setEnabled on =>
      cases on with
      | true => exact h.fewer rfl fun _ => id
      | false =>
        have hw : Desk.Tidy { s.desk with engine := s.desk.engine.writeEnabled false }
            s.reported := hd.congr rfl rfl
        exact .empty (hw.cancelAllOrders hc).2.2
    | setSymbolEnabled symbol on => exact h.setSymbolEnabled hd hc symbol on
    | setSpreadMultiplier v => exact h.setParameter hd hc v rfl
    | setSizeScalar v => exact h.setParameter hd hc v rfl
    | setDirectionalSkew v => exact h.setParameter hd hc v rfl
    | cancelAllOrders => exact .empty (hd.cancelAllOrders hc).2.2
    | cancelSymbolOrders symbol => exact h.foldl_cancelOrder _
    | onOrderFilled i p q =>
      apply h.fewer
      · have hset : (s.desk.engine.onOrderFilled (showOrderId B) i p q).settings =
            s.desk.engine.settings := onOrderFilled_settings _ p q
        exact congrArg (·.2.1.symbolEnabled) hset
      · exact fun symbol => onOrderFilled_quotesOn (showOrderId B) i p q

/-- In every run a symbol that is switched off has nothing tracked and nothing of the engine
resting on its books, and switching it off changes neither for the other symbols. -/
theorem symbol_switch_holds (hc : CancelRemoves B) (h : Reaches Start step Honest s)
    (symbol : String) :
    (s.desk.engine.config.symbolEnabled.lookup symbol = some false →
      (∀ i o, s.desk.engine.activeOrders.lookup i = some o → o.symbol ≠ symbol) ∧
      ∀ a i, a.underlying = symbol → i ∈ s.desk.quoted → s.desk.market.getOrder a i = none) ∧
    (∀ i o, o.symbol ≠ symbol →
      ((s.desk.setSymbolEnabled symbol false).engine.activeOrders.lookup i = some o ↔
        s.desk.engine.activeOrders.lookup i = some o)) ∧
    ∀ a i, a.underlying ≠ symbol →
      (s.desk.setSymbolEnabled symbol false).market.getOrder a i = s.desk.market.getOrder a i := by
  have hinv : s.Tidy ∧ s.desk.SymbolOff := by
    apply Reaches.invariant (P := fun s : Session B F => s.Tidy ∧ s.desk.SymbolOff) _ _ h
    · intro s hs
      obtain ⟨quoter, he⟩ := hs.engine
      refine ⟨hs.tidy, .empty fun i => ?_⟩
      rw [he]
      rfl
    · exact fun s i hs hok => ⟨hs.1.step hc i hok, symbolOff_step hs.2 hs.1 hc i⟩
  have hd : s.desk.Tidy s.reported := hinv.1
  have hw : Desk.Tidy (s.desk.writeConfig { s.desk.engine.config with
      symbolEnabled := s.desk.engine.config.symbolEnabled.insert symbol false }) s.reported :=
    hd.congr rfl rfl
  refine ⟨?_, ?_, ?_⟩
  · intro hoff
    have hnone : ¬ s.desk.engine.QuotesOn symbol := by
      apply hinv.2 symbol
      simp [isSymbolEnabled, hoff]
    constructor
    · exact fun i o ho hs => hnone ⟨i, o, ho, hs⟩
    · intro a i ha hi
      cases ho : s.desk.market.getOrder a i with
      | none => rfl
      | some r =>
        -- what rests is tracked, on the book it rests on
        obtain ⟨o, hact⟩ := Option.isSome_iff_exists.mp (hinv.1.resting_tracked hi ho)
        have hhome := hd.homed i hi ho
        have hknown := (hd.known hact).2.1
        rw [hhome] at hknown
        refine absurd ⟨i, o, hact, ?_⟩ hnone
        rw [← ha, Option.some.inj hknown]
        rfl
  · intro i o hne
    exact (hw.cancelSymbolOrders_lookup hc i o).trans (and_iff_left hne)
  · intro a i hne
    exact Desk.cancelSymbolOrders_getOrder (d := s.desk.writeConfig _) i hne

end Session

section Reference

def ethPut : OptionAddr := ⟨"ETH", .days 30, 10000, .put⟩

/-- Two symbols are quoted, one is switched off, and everything is requoted. -/
def switchSteps : List (Step ℚ) :=
  [.books (.openBook btcCall), .books (.openBook ethPut), .engine (.updatePrice "BTC" 10000),
    .engine (.updatePrice "ETH" 10000), .engine (.setSymbolEnabled "BTC" false),
    .engine (.setSpreadMultiplier 2)]

theorem symbol_switch_holds_btc :
    (switchSteps.foldl Session.step Session.reference).desk.engine.QuotesOn "ETH" ∧
    ∀ i o, (switchSteps.foldl Session.step Session.reference).desk.engine.activeOrders.lookup i =
      some o → o.symbol ≠ "BTC" := by
  have hrun : Reaches Session.Start Session.step Session.Honest
      (switchSteps.foldl Session.step Session.reference) :=
    (Reaches.start Session.reference_start).run (by decide +kernel)
  have hoff : (switchSteps.foldl Session.step Session.reference
      ).desk.engine.config.symbolEnabled.lookup "BTC" = some false := by decide +kernel
  refine ⟨⟨8, ?_⟩, ((Session.symbol_switch_holds ReferenceBook.cancelRemoves hrun "BTC").1
    hoff).1⟩
  have hsome : ((switchSteps.foldl Session.step Session.reference
      ).desk.engine.activeOrders.lookup 8).map (·.symbol) = some "ETH" := by decide +kernel
  exact Option.map_eq_some_iff.mp hsome

end Reference
end MarketMaker
end OptionChainBackend
