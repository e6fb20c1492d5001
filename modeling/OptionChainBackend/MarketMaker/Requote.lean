import OptionChainBackend.MarketMaker.Desk

/-!
Requoting: one instrument is replaced, every other instrument stays as it is, and the engine
stays in step with its books.
-/
namespace OptionChainBackend
namespace MarketMaker
open Foundation Upstream Exchange

namespace MarketMakerEngine
variable {F : Type} {e e' e'' : MarketMakerEngine F} {key : InstrumentKey} {i : OrderId}
  {o : ActiveOrderInfo}

/-- The parts of the engine that no order operation writes. -/
def settings (e : MarketMakerEngine F) : Quoter F × MarketMakerConfig F × Table String ℕ :=
  (e.quoter, e.config, e.prices)

/-- Nothing changed outside instrument `key`. -/
structure Elsewhere (key : InstrumentKey) (e e' : MarketMakerEngine F) : Prop where
  index : ∀ k, k ≠ key → e'.instrumentOrders.lookup k = e.instrumentOrders.lookup k
  active : ∀ j o, InstrumentKey.fromOrder o ≠ key →
    (e'.activeOrders.lookup j = some o ↔ e.activeOrders.lookup j = some o)

theorem Elsewhere.refl (key : InstrumentKey) (e : MarketMakerEngine F) : Elsewhere key e e :=
  ⟨fun _ _ => rfl, fun _ _ _ => Iff.rfl⟩

theorem Elsewhere.trans (h : Elsewhere key e e') (h' : Elsewhere key e' e'') :
    Elsewhere key e e'' where
  index k hk := (h'.index k hk).trans (h.index k hk)
  active j o ho := (h'.active j o ho).trans (h.active j o ho)

theorem Elsewhere.track (hi : e.activeOrders.lookup i = none) :
    Elsewhere (.fromOrder o) e (e.track i o) where
  index _ _ := rfl
  active j o' ho' := by
    simp only [MarketMakerEngine.track, Table.lookup_insert_eq]
    split_ifs with hj
    · subst hj
      rw [hi]
      constructor
      · intro h
        exact absurd (congrArg InstrumentKey.fromOrder (Option.some.inj h)).symm ho'
      · intro h
        cases h
    · exact Iff.rfl

theorem Elsewhere.recordLegs (placed : Slots) : Elsewhere key e (e.recordLegs key placed) := by
  unfold MarketMakerEngine.recordLegs
  split_ifs
  · exact .refl key e
  · constructor
    · intro k hk
      simp [hk]
    · intro j o _
      exact Iff.rfl

theorem Indexed.elsewhere_dropEntry (h : e.Indexed) : Elsewhere key e (e.dropEntry key) where
  index k hk := by rw [dropEntry_lookup, if_neg hk]
  active j o ho := by
    rw [h.dropEntry_active]
    exact and_iff_left ho

theorem recordLegs_settings (placed : Slots) : (e.recordLegs key placed).settings = e.settings := by
  unfold recordLegs
  split_ifs <;> rfl

theorem foldl_untrack_settings (ids : List OrderId) (e : MarketMakerEngine F) :
    (ids.foldl untrack e).settings = e.settings := by
  induction ids generalizing e with
  | nil => rfl
  | cons i ids ih => exact ih (e.untrack i)

theorem clearInstrumentSlot_settings (isBuy : Bool) :
    (e.clearInstrumentSlot key isBuy).settings = e.settings := by
  unfold clearInstrumentSlot
  split <;> rfl

theorem takeFill_settings (q : ℕ) : (e.takeFill i o q).settings = e.settings := by
  unfold takeFill
  split_ifs
  · exact clearInstrumentSlot_settings _
  · rfl

theorem onOrderFilled_settings (showId : OrderId → String) (price q : ℕ) :
    (e.onOrderFilled showId i price q).settings = e.settings := by
  rcases e.onOrderFilled_cases showId i price q with ⟨-, he⟩ | ⟨o, events, -, -, he⟩
  · rw [he]
  · rw [he]
    exact takeFill_settings q

/-- A fill tracks nothing new. -/
theorem onOrderFilled_lookup_none (showId : OrderId → String) (price q : ℕ) {j : OrderId}
    (hj : e.activeOrders.lookup j = none) :
    (e.onOrderFilled showId i price q).activeOrders.lookup j = none := by
  rcases e.onOrderFilled_cases showId i price q with ⟨-, he⟩ | ⟨o, events, -, hi, he⟩
  · rwa [he]
  · have hne : j ≠ i := by
      rintro rfl
      rw [hi] at hj
      cases hj
    have htake : (e.takeFill i o q).activeOrders.lookup j = none := by
      rwa [lookup_takeFill, if_neg hne]
    rw [he]
    exact htake

end MarketMakerEngine

namespace Desk
open MarketMakerEngine
variable {B F : Type} [Upstream B] [LawfulUpstream B] {d : Desk B F} {reported : OrderId → ℕ}
  {a : OptionAddr}

/-- In the middle of requoting the instrument on `a`, begun at `d`: the legs in `placed` rest
and are tracked, but not yet recorded. -/
structure Midway (d d' : Desk B F) (a : OptionAddr) (placed : Slots)
    (reported : OrderId → ℕ) : Prop where
  sound : d'.Sound reported
  placing : d'.engine.Placing (.new a) placed
  elsewhere : Elsewhere (.new a) d.engine d'.engine
  catalog : d'.market.toCatalog = d.market.toCatalog
  settings : d'.engine.settings = d.engine.settings

/-- What requoting the instrument on `a` keeps. -/
structure Requoted (d d' : Desk B F) (a : OptionAddr) (reported : OrderId → ℕ) : Prop where
  tidy : d'.Tidy reported
  elsewhere : Elsewhere (.new a) d.engine d'.engine
  catalog : d'.market.toCatalog = d.market.toCatalog
  settings : d'.engine.settings = d.engine.settings

theorem Tidy.dropStale (h : d.Tidy reported) (hc : CancelRemoves B) (a : OptionAddr) :
    Midway d (d.dropStale a (d.engine.slots (.new a))) a Slots.none reported := by
  unfold Desk.dropStale
  by_cases he : (d.engine.slots (.new a)).isEmpty = true
  · rw [if_pos he]
    exact ⟨h.toSound, h.indexed.placing ((Slots.isEmpty_iff _).mp he), .refl _ _, rfl, rfl⟩
  rw [if_neg he]
  obtain ⟨hs, heng, hq, hcat, hle, hz⟩ :=
    foldl_cancelOnBook h.toSound hc a (d.engine.slots (.new a)).ids
  dsimp only
  rw [heng]
  have hactive := h.indexed.dropEntry_active (.new a)
  have hvacant : (d.engine.dropEntry (.new a)).slots (.new a) = Slots.none :=
    (dropEntry_slots _ _).trans (if_pos rfl)
  refine ⟨?_, (h.indexed.dropEntry _).placing hvacant, h.indexed.elsewhere_dropEntry, hcat, ?_⟩
  · apply hs.thin
    · intro i o ho
      rw [heng]
      exact ((hactive i o).mp ho).1
    · intro i hi
      rw [heng]
      cases ho : d.engine.activeOrders.lookup i with
      | none => exact .inl rfl
      | some o =>
        have hkey : InstrumentKey.fromOrder o = .new a := by
          by_contra hne
          have hsome := (hactive i o).mpr ⟨ho, hne⟩
          exact Option.some_ne_none o (hsome.symm.trans hi)
        have haddr : o.addr = a := InstrumentKey.new_injective hkey
        have hmem := (h.indexed.mem_slots_ids (.new a) i).mpr ⟨o, ho, hkey⟩
        exact .inr (hz i hmem (h.known ho).1 (haddr ▸ (h.known ho).2.1))
  · exact foldl_untrack_settings _ _

theorem Midway.placeLeg {d' : Desk B F} {placed : Slots} (h : Midway d d' a placed reported)
    (price : ℕ) {o : ActiveOrderInfo} (ho : o.addr = a) (hb : d.market.hasBook a = true)
    (hfree : placed (legSlot o.isBuy) = none) :
    Midway d (d'.placeLeg a price o).2 a
      (Function.update placed (legSlot o.isBuy) (d'.placeLeg a price o).1) reported := by
  subst ho
  have hs := h.sound
  have hb' : d'.market.hasBook o.addr = true := h.catalog ▸ hb
  rcases placeLeg_cases d' price o (hs.fresh.absent le_rfl) with
    ⟨x, he, hq, hc, -⟩ | ⟨x, side, r, left, he, hf, hc, -⟩
  · rw [he]
    have hsame : Function.update placed (legSlot o.isBuy) none = placed := by
      rw [← hfree, Function.update_eq_self]
    rw [hsame]
    exact ⟨hs.quiet hq (.of_eq hc), h.placing, h.elsewhere, hc.trans h.catalog, h.settings⟩
  · rw [he]
    have hun := hs.untracked le_rfl
    refine ⟨?_, h.placing.track hun hfree, h.elsewhere.trans (.track hun), hc.trans h.catalog,
      h.settings⟩
    apply hs.newOrderId.place (Nat.lt_succ_self _) hs.unissued
    · intro c
      exact hs.fresh.absent le_rfl
    · exact hs.fresh.executed_eq_zero le_rfl
    · exact hf
    · exact .of_eq hc
    · exact hb'

omit [LawfulUpstream B] in
theorem Midway.recordLegs {d' : Desk B F} {placed : Slots} (h : Midway d d' a placed reported)
    (event : MarketMakerEvent F) :
    Requoted d { d' with engine := (d'.engine.recordLegs (.new a) placed).send event } a
      reported where
  tidy := by
    have ha : (d'.engine.recordLegs (.new a) placed).activeOrders = d'.engine.activeOrders := by
      unfold MarketMakerEngine.recordLegs
      split_ifs <;> rfl
    exact ⟨h.sound.congr ha, h.placing.recordLegs.send event⟩
  elsewhere := by
    have hr : Elsewhere (.new a) d'.engine (d'.engine.recordLegs (.new a) placed) :=
      .recordLegs placed
    exact h.elsewhere.trans ⟨hr.index, hr.active⟩
  catalog := h.catalog
  settings := (recordLegs_settings placed).trans h.settings

theorem Slots.pair_eq (bid ask : Option OrderId) : Slots.pair bid ask =
    Function.update (Function.update Slots.none (legSlot true) bid) (legSlot false) ask := by
  funext s
  match s with
  | 0 => rfl
  | 1 => rfl

theorem Tidy.replaceQuotes (h : d.Tidy reported) (hc : CancelRemoves B)
    (ctx : RequoteContext F) (strike : ℕ) (style : OptionStyle) (q : QuoteParams)
    (hb : d.market.hasBook ⟨ctx.symbol, ctx.expiration, strike, style⟩ = true) :
    Requoted d (d.replaceQuotes ctx strike style q) ⟨ctx.symbol, ctx.expiration, strike, style⟩
      reported := by
  have hdrop := h.dropStale hc ⟨ctx.symbol, ctx.expiration, strike, style⟩
  have hbid := hdrop.placeLeg q.bidPrice (o := legInfo ctx strike style q true) rfl hb rfl
  have hask := hbid.placeLeg q.askPrice (o := legInfo ctx strike style q false) rfl hb rfl
  unfold Desk.replaceQuotes
  dsimp only
  rw [Slots.pair_eq]
  exact hask.recordLegs _

omit [LawfulUpstream B] in
theorem cancelOrder_lookup (d : Desk B F) (i j : OrderId) :
    (d.cancelOrder i).engine.activeOrders.lookup j =
      if j = i then none else d.engine.activeOrders.lookup j := by
  unfold Desk.cancelOrder
  cases hi : d.engine.activeOrders.lookup i with
  | none =>
    split_ifs with hj
    · rw [hj, hi]
    · rfl
  | some o =>
    have hlook := d.engine.forget_lookup i j (.fromOrder o) o.isBuy
    dsimp only
    split_ifs at hlook ⊢ <;> exact hlook

omit [LawfulUpstream B] in
theorem cancelOrder_settings (d : Desk B F) (i : OrderId) :
    (d.cancelOrder i).engine.settings = d.engine.settings := by
  unfold Desk.cancelOrder
  split
  · rfl
  · dsimp only
    split_ifs <;> exact clearInstrumentSlot_settings _

theorem Tidy.foldl_cancelOrder (h : d.Tidy reported) (hc : CancelRemoves B)
    (ids : List OrderId) :
    (ids.foldl Desk.cancelOrder d).Tidy reported ∧
      (ids.foldl Desk.cancelOrder d).engine.settings = d.engine.settings ∧
      ∀ j, (ids.foldl Desk.cancelOrder d).engine.activeOrders.lookup j =
        if j ∈ ids then none else d.engine.activeOrders.lookup j := by
  induction ids generalizing d with
  | nil => exact ⟨h, rfl, by simp⟩
  | cons i ids ih =>
    obtain ⟨ht, hs, hl⟩ := ih (h.cancelOrder hc i)
    refine ⟨ht, hs.trans (d.cancelOrder_settings i), fun j => ?_⟩
    rw [List.foldl_cons, hl j, cancelOrder_lookup]
    by_cases hj : j ∈ ids
    · simp [hj]
    · by_cases hi : j = i <;> simp [hj, hi]

/-- After `cancel_all_orders` nothing is tracked. -/
theorem Tidy.cancelAllOrders (h : d.Tidy reported) (hc : CancelRemoves B) :
    d.cancelAllOrders.Tidy reported ∧ d.cancelAllOrders.engine.settings = d.engine.settings ∧
      ∀ j, d.cancelAllOrders.engine.activeOrders.lookup j = none := by
  obtain ⟨ht, hs, hl⟩ := h.foldl_cancelOrder hc d.engine.activeOrders.keys
  have hnone : ∀ j, d.cancelAllOrders.engine.activeOrders.lookup j = none := by
    intro j
    refine (hl j).trans ?_
    split_ifs with hj
    · rfl
    · rw [← AList.mem_keys] at hj
      exact AList.lookup_eq_none.mpr hj
  refine ⟨⟨?_, ?_⟩, hs, hnone⟩
  · exact ht.toSound.congr rfl
  · constructor
    · intro p i
      have hslot : d.cancelAllOrders.engine.slotAt p = none := by
        simp [slotAt, slots, Desk.cancelAllOrders, clearIndex, Slots.none]
      simp [hslot, hnone]
    · intro k s hk
      simp [Desk.cancelAllOrders, clearIndex] at hk

theorem Tidy.cancelSymbolOrders (h : d.Tidy reported) (hc : CancelRemoves B) (symbol : String) :
    (d.cancelSymbolOrders symbol).Tidy reported ∧
      (d.cancelSymbolOrders symbol).engine.settings = d.engine.settings := by
  obtain ⟨ht, hs, -⟩ := h.foldl_cancelOrder hc
    ((d.engine.activeOrders.select fun _ o => o.symbol = symbol).map Prod.fst)
  exact ⟨ht, hs⟩

variable [F64 F]

theorem Tidy.updateQuote (h : d.Tidy reported) (hc : CancelRemoves B) (ctx : RequoteContext F)
    (strike : ℕ) (style : OptionStyle) :
    Requoted d (d.updateQuote ctx strike style) ⟨ctx.symbol, ctx.expiration, strike, style⟩
      reported := by
  have hrefl : Requoted d d ⟨ctx.symbol, ctx.expiration, strike, style⟩ reported :=
    ⟨h, .refl _ _, rfl, rfl⟩
  unfold Desk.updateQuote
  split
  · exact hrefl
  · split_ifs with hb
    · exact h.replaceQuotes hc ctx strike style _ hb
    · exact hrefl

/-- What a whole requote keeps. -/
structure Kept (d d' : Desk B F) (reported : OrderId → ℕ) : Prop where
  tidy : d'.Tidy reported
  catalog : d'.market.toCatalog = d.market.toCatalog
  settings : d'.engine.settings = d.engine.settings

theorem Tidy.requoteSymbol (h : d.Tidy reported) (hc : CancelRemoves B) (symbol : String) :
    Kept d (d.requoteSymbol symbol) reported := by
  unfold Desk.requoteSymbol
  cases d.engine.getPrice symbol with
  | none => exact ⟨h, rfl, rfl⟩
  | some spotCents =>
    dsimp only
    split_ifs
    · apply List.foldlRecOn (motive := fun d' => Kept d d' reported)
      · exact ⟨h, rfl, rfl⟩
      · intro d' hd' i _
        have hr := hd'.tidy.updateQuote hc (d.requoteContext symbol spotCents i.1) i.2.1 i.2.2
        exact ⟨hr.tidy, hr.catalog.trans hd'.catalog, hr.settings.trans hd'.settings⟩
    · exact ⟨h, rfl, rfl⟩

theorem Tidy.requoteAll (h : d.Tidy reported) (hc : CancelRemoves B) :
    Kept d d.requoteAll reported := by
  unfold Desk.requoteAll
  apply List.foldlRecOn (motive := fun d' => Kept d d' reported)
  · exact ⟨h, rfl, rfl⟩
  · intro d' hd' symbol _
    split_ifs
    · have hr := hd'.tidy.requoteSymbol hc symbol
      exact ⟨hr.tidy, hr.catalog.trans hd'.catalog, hr.settings.trans hd'.settings⟩
    · exact hd'

end Desk
end MarketMaker
end OptionChainBackend
