import OptionChainBackend.MarketMaker.Runs

/-!
The master switch. `update_price` checks it; the three parameter setters requote without
looking at it, so a parameter change can put quotes back after a shutdown.
-/
namespace OptionChainBackend
namespace MarketMaker
open Foundation Upstream Exchange MarketMakerEngine

namespace Desk
variable {B F : Type} [Upstream B] [F64 F] {d : Desk B F}

/-- A requote of everything would quote some instrument. -/
def Quotes (d : Desk B F) : Prop :=
  ∃ symbol ∈ d.market.underlyings, d.engine.isSymbolEnabled symbol = true ∧
    ∃ spot, d.engine.getPrice symbol = some spot ∧
    ∃ i ∈ d.instruments symbol, (d.engine.quoter.generateQuote d.market.now
      (quoteInput (d.requoteContext symbol spot i.1) i.2.1 i.2.2)).isSome = true

theorem requoteSymbol_eq_self {symbol : String} (h : ∀ spot, d.engine.getPrice symbol = some spot →
    ∀ i ∈ d.instruments symbol, d.engine.quoter.generateQuote d.market.now
      (quoteInput (d.requoteContext symbol spot i.1) i.2.1 i.2.2) = none) :
    d.requoteSymbol symbol = d := by
  unfold Desk.requoteSymbol
  cases hp : d.engine.getPrice symbol with
  | none => rfl
  | some spot =>
    dsimp only
    split_ifs
    · apply List.foldlRecOn (motive := fun d' => d' = d)
      · rfl
      · intro d' hd' i hi
        subst hd'
        unfold Desk.updateQuote
        rw [h spot hp i hi]
    · rfl

theorem requoteAll_eq_self (h : ¬ d.Quotes) : d.requoteAll = d := by
  unfold Desk.requoteAll
  apply List.foldlRecOn (motive := fun d' => d' = d)
  · rfl
  · intro d' hd' symbol hs
    subst hd'
    split_ifs with hon
    · apply requoteSymbol_eq_self
      intro spot hp i hi
      by_contra hne
      exact h ⟨symbol, hs, hon, spot, hp, i, hi, Option.isSome_iff_ne_none.mpr hne⟩
    · rfl

/-- The change of parameters finds nothing to quote. -/
def Silent (d : Desk B F) (value : F) (config : MarketMakerConfig F) : Prop :=
  F64.isFinite value = true → ¬ (d.writeConfig config).Quotes

theorem setParameter_activeOrders {v : F} {config : MarketMakerConfig F}
    (h : d.Silent v config) :
    (d.setParameter v config).engine.activeOrders = d.engine.activeOrders := by
  unfold Desk.setParameter
  split_ifs with hv
  · have hq : ¬ Quotes { d.writeConfig config with
        engine := (d.writeConfig config).engine.broadcastConfigChange } := h hv
    dsimp only
    rw [requoteAll_eq_self hq]
    rfl
  · rfl

/-- Whatever the setter does, the configuration it stores is the one kept. -/
theorem setParameter_config [LawfulUpstream B] {reported : OrderId → ℕ} (h : d.Tidy reported)
    (hc : CancelRemoves B) (v : F) (config : MarketMakerConfig F) :
    (d.setParameter v config).engine.config = config ∨
      (d.setParameter v config).engine.config = d.engine.config := by
  unfold Desk.setParameter
  split_ifs
  · have hw : Tidy { d with
        engine := (d.writeConfig config).engine.broadcastConfigChange } reported := h.congr rfl rfl
    exact .inl (congrArg (·.2.1) (hw.requoteAll hc).settings)
  · exact .inr rfl

end Desk

namespace Session
variable {B F : Type} [Upstream B] [F64 F] {s : Session B F}

/-- While the master switch is off nothing is tracked. -/
def Off (s : Session B F) : Prop :=
  s.desk.engine.config.enabled = false → ∀ i, s.desk.engine.activeOrders.lookup i = none

/-- A parameter changes only while the switch is on, or where nothing would be quoted. -/
def Careful (s : Session B F) : Step F → Prop
  | .engine (.setSpreadMultiplier v) => s.desk.engine.config.enabled = true ∨
      s.desk.Silent v (s.desk.engine.config.withSpreadMultiplier v)
  | .engine (.setSizeScalar v) => s.desk.engine.config.enabled = true ∨
      s.desk.Silent v (s.desk.engine.config.withSizeScalar v)
  | .engine (.setDirectionalSkew v) => s.desk.engine.config.enabled = true ∨
      s.desk.Silent v (s.desk.engine.config.withDirectionalSkew v)
  | _ => True

variable [LawfulUpstream B]

theorem Off.setParameter (h : s.Off) (ht : s.Tidy) (hc : CancelRemoves B) (v : F)
    {config : MarketMakerConfig F} (hen : config.enabled = s.desk.engine.config.enabled)
    (hok : s.desk.engine.config.enabled = true ∨ s.desk.Silent v config) :
    Off { s with desk := s.desk.setParameter v config } := by
  intro hoff i
  have hd : s.desk.Tidy s.reported := ht
  have hsame : (s.desk.setParameter v config).engine.config.enabled =
      s.desk.engine.config.enabled := by
    rcases Desk.setParameter_config hd hc v config with he | he
    · rw [he, hen]
    · rw [he]
  have hold : s.desk.engine.config.enabled = false := hsame ▸ hoff
  rcases hok with hon | hsilent
  · rw [hold] at hon
    cases hon
  · rw [Desk.setParameter_activeOrders hsilent]
    exact h hold i

theorem Off.step (h : s.Off) (ht : s.Tidy) (hc : CancelRemoves B) (i : Step F)
    (hok : s.Careful i) : (s.step i).Off := by
  have hd : s.desk.Tidy s.reported := ht
  cases i with
  | books call => exact h
  | engine op =>
    cases op with
    | updatePrice symbol p =>
      intro hoff
      have hp : Desk.Tidy { s.desk with
          engine := (s.desk.engine.insertPrice symbol p).send (.priceUpdated symbol p) }
          s.reported := hd.congr rfl rfl
      simp only [Session.step, Operation.apply, Desk.updatePrice] at hoff ⊢
      split_ifs at hoff ⊢ with hcond
      · -- a requote only runs with the switch on, and does not turn it off
        rw [Bool.and_eq_true] at hcond
        have hset := congrArg (·.2.1.enabled) (hp.requoteSymbol hc symbol).settings
        have hon : s.desk.engine.config.enabled = true := hcond.1
        exact absurd (hset.symm.trans hoff) (by simp [settings, send, insertPrice, hon])
      · exact h hoff
    | setEnabled on =>
      cases on with
      | true =>
        intro hoff
        cases hoff
      | false =>
        intro _
        have hw : Desk.Tidy { s.desk with engine := s.desk.engine.writeEnabled false }
            s.reported := hd.congr rfl rfl
        exact (hw.cancelAllOrders hc).2.2
    | setSymbolEnabled symbol on =>
      intro hoff i
      have hw : Desk.Tidy (s.desk.writeConfig { s.desk.engine.config with
          symbolEnabled := s.desk.engine.config.symbolEnabled.insert symbol on }) s.reported :=
        hd.congr rfl rfl
      cases on with
      | true => exact h hoff i
      | false =>
        obtain ⟨-, hset, hact⟩ := hw.foldl_cancelOrder hc
          ((s.desk.engine.activeOrders.select fun _ o => o.symbol = symbol).map Prod.fst)
        refine (hact i).trans ?_
        split_ifs
        · rfl
        · apply h
          exact (congrArg (·.2.1.enabled) hset).symm.trans hoff
    | setSpreadMultiplier v => exact h.setParameter ht hc v rfl hok
    | setSizeScalar v => exact h.setParameter ht hc v rfl hok
    | setDirectionalSkew v => exact h.setParameter ht hc v rfl hok
    | cancelAllOrders => exact fun _ => (hd.cancelAllOrders hc).2.2
    | cancelSymbolOrders symbol =>
      intro hoff i
      obtain ⟨-, hset, hact⟩ := hd.foldl_cancelOrder hc
        ((s.desk.engine.activeOrders.select fun _ o => o.symbol = symbol).map Prod.fst)
      refine (hact i).trans ?_
      split_ifs
      · rfl
      · apply h
        exact (congrArg (·.2.1.enabled) hset).symm.trans hoff
    | onOrderFilled i p q =>
      intro hoff j
      have hset : (s.desk.engine.onOrderFilled (showOrderId B) i p q).settings =
          s.desk.engine.settings := onOrderFilled_settings _ p q
      apply onOrderFilled_lookup_none
      apply h
      exact (congrArg (·.2.1.enabled) hset).symm.trans hoff

omit [LawfulUpstream B] in
theorem Start.off (h : s.Start) : s.Off := by
  obtain ⟨quoter, he⟩ := h.engine
  intro _ i
  rw [he]
  rfl

/-- In every run whose parameter changes are `Careful`, a switched-off engine tracks nothing and
has nothing resting. -/
theorem kill_switch_holds (hc : CancelRemoves B)
    (h : Reaches Start step (fun s i => s.Honest i ∧ s.Careful i) s)
    (hoff : s.desk.engine.config.enabled = false) :
    (∀ i, s.desk.engine.activeOrders.lookup i = none) ∧
      ∀ a i, i ∈ s.desk.quoted → s.desk.market.getOrder a i = none := by
  have hinv : s.Tidy ∧ s.Off := by
    apply Reaches.invariant (P := fun s => s.Tidy ∧ s.Off) _ _ h
    · exact fun s hs => ⟨hs.tidy, hs.off⟩
    · exact fun s i hs hok => ⟨hs.1.step hc i hok.1, hs.2.step hs.1 hc i hok.2⟩
  refine ⟨hinv.2 hoff, fun a i hi => ?_⟩
  cases ho : s.desk.market.getOrder a i with
  | none => rfl
  | some o =>
    have ht := hinv.1.resting_tracked hi ho
    rw [hinv.2 hoff i] at ht
    cases ht

end Session

section Reference

/-- Quotes are up, the switch goes off, the spread multiplier changes. -/
def shutdownSteps : List (Step ℚ) :=
  [.books (.openBook btcCall), .engine (.updatePrice "BTC" 10000), .engine (.setEnabled false),
    .engine (.setSpreadMultiplier 2)]

theorem kill_switch_violated : ¬ ∀ s : Session ReferenceBook ℚ,
    Reaches Session.Start Session.step Session.Honest s →
    s.desk.engine.config.enabled = false →
    (∀ i, s.desk.engine.activeOrders.lookup i = none) ∧
      ∀ a i, i ∈ s.desk.quoted → s.desk.market.getOrder a i = none := by
  intro h
  have hrun : Reaches Session.Start Session.step Session.Honest
      (shutdownSteps.foldl Session.step Session.reference) :=
    (Reaches.start Session.reference_start).run (by decide +kernel)
  have hrest := (h _ hrun (by decide +kernel)).2 btcCall 4 (by decide +kernel)
  exact absurd hrest (by decide +kernel)

theorem kill_switch_holds_after_shutdown :
    let s := (shutdownSteps.take 3).foldl Session.step Session.reference
    (∀ i, s.desk.engine.activeOrders.lookup i = none) ∧
      ∀ a i, i ∈ s.desk.quoted → s.desk.market.getOrder a i = none := by
  have hrun : Reaches Session.Start Session.step (fun s i => s.Honest i ∧ s.Careful i)
      ((shutdownSteps.take 3).foldl Session.step Session.reference) := by
    apply (Reaches.start Session.reference_start).run
    exact ⟨⟨trivial, trivial⟩, ⟨trivial, trivial⟩, ⟨trivial, trivial⟩, trivial⟩
  exact Session.kill_switch_holds ReferenceBook.cancelRemoves hrun (by decide +kernel)

end Reference
end MarketMaker
end OptionChainBackend
