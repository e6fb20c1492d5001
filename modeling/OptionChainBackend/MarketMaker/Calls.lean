import OptionChainBackend.MarketMaker.Runs
import OptionChainBackend.Upstream.Ages

/-!
Every operation of the engine is made of cancels, placements and changes of the engine alone;
a property all three keep is kept by every operation.
-/
namespace OptionChainBackend
namespace MarketMaker
open Foundation Upstream Exchange

namespace MarketMakerEngine
variable {F : Type} {e e' e'' : MarketMakerEngine F} {i : OrderId}

/-- Every tracked order was tracked before, on the same book. -/
def Thins (e e' : MarketMakerEngine F) : Prop :=
  ∀ i o, e'.activeOrders.lookup i = some o →
    ∃ o', e.activeOrders.lookup i = some o' ∧ o'.addr = o.addr

theorem Thins.of_eq (h : e'.activeOrders = e.activeOrders) : Thins e e' := by
  intro i o ho
  exact ⟨o, h ▸ ho, rfl⟩

theorem Thins.trans (h : Thins e e') (h' : Thins e' e'') : Thins e e'' := by
  intro i o ho
  obtain ⟨o', ho', haddr'⟩ := h' i o ho
  obtain ⟨o'', ho'', haddr⟩ := h i o' ho'
  exact ⟨o'', ho'', haddr.trans haddr'⟩

theorem Thins.untrack (e : MarketMakerEngine F) (i : OrderId) : Thins e (e.untrack i) := by
  intro j o ho
  simp only [MarketMakerEngine.untrack, Table.lookup_erase_eq] at ho
  split_ifs at ho
  exact ⟨o, ho, rfl⟩

theorem Thins.forget (e : MarketMakerEngine F) (i : OrderId) (key : InstrumentKey)
    (isBuy : Bool) : Thins e ((e.untrack i).clearInstrumentSlot key isBuy) :=
  (untrack e i).trans (.of_eq (clearInstrumentSlot_activeOrders key isBuy))

theorem Thins.takeFill {o : ActiveOrderInfo} (ho : e.activeOrders.lookup i = some o) (q : ℕ) :
    Thins e (e.takeFill i o q) := by
  intro j o' hj
  rw [lookup_takeFill] at hj
  split_ifs at hj with hi hq
  · obtain rfl := Option.some.inj hj
    exact ⟨o, hi ▸ ho, rfl⟩
  · exact ⟨o', hj, rfl⟩

theorem Thins.onOrderFilled (e : MarketMakerEngine F) (showId : OrderId → String) (i : OrderId)
    (price q : ℕ) : Thins e (e.onOrderFilled showId i price q) := by
  rcases e.onOrderFilled_cases showId i price q with ⟨-, he⟩ | ⟨o, events, -, ho, he⟩
  · rw [he]
    exact .of_eq rfl
  · rw [he]
    exact (takeFill ho q).trans (.of_eq rfl)

end MarketMakerEngine

namespace Desk
variable {B F : Type} [Upstream B]

/-- What the parts of an engine operation keep, whatever the engine comes to hold. -/
structure PartsKeep (P : Desk B F → Prop) : Prop where
  engine : ∀ d e, P d → P { d with engine := e }
  cancel : ∀ d a i, P d → P (d.cancelOnBook a i)
  place : ∀ d a isBuy p q, P d → P (d.placeOnBook a isBuy p q).2

/-- What the parts of an engine operation keep: the engine tracks an order as it places it, on a
book that exists, and otherwise only forgets. -/
structure LegsKeep (P : Desk B F → Prop) : Prop where
  thin : ∀ d e, d.engine.Thins e → P d → P { d with engine := e }
  cancel : ∀ d a i, P d → P (d.cancelOnBook a i)
  leg : ∀ d p o, d.market.hasBook o.addr = true → P d → P (d.placeLeg o.addr p o).2

/-- What the parts of an engine operation keep, one change of the tracked orders at a time. -/
structure StepsKeep (P : Desk B F → Prop) : Prop where
  same : ∀ d e, e.activeOrders = d.engine.activeOrders → P d → P { d with engine := e }
  untrack : ∀ d i, P d → P { d with engine := d.engine.untrack i }
  fill : ∀ d i o q, d.engine.activeOrders.lookup i = some o → q < o.quantity → P d →
    P { d with engine := d.engine.track i { o with quantity := o.quantity - q } }
  cancel : ∀ d a i, P d → P (d.cancelOnBook a i)
  leg : ∀ d p o, d.market.hasBook o.addr = true → 0 < o.quantity → P d →
    P (d.placeLeg o.addr p o).2

theorem LegsKeep.steps {P : Desk B F → Prop} (hp : LegsKeep P) : StepsKeep P where
  same d e he := hp.thin d e (.of_eq he)
  untrack d i := hp.thin d _ (.untrack d.engine i)
  fill d i o q ho hq := by
    have hthin := MarketMakerEngine.Thins.takeFill ho q
    unfold MarketMakerEngine.takeFill at hthin
    rw [if_neg (Nat.not_le.mpr hq)] at hthin
    exact hp.thin d _ hthin
  cancel := hp.cancel
  leg d p o hb _ := hp.leg d p o hb

theorem PartsKeep.legs {P : Desk B F → Prop} (hp : PartsKeep P) : LegsKeep P where
  thin d e _ := hp.engine d e
  cancel := hp.cancel
  leg d p o _ h := by
    have hplace := hp.place d o.addr o.isBuy p o.quantity h
    unfold Desk.placeLeg
    split
    · rename_i i d' he
      rw [he] at hplace
      exact hp.engine _ _ hplace
    · rename_i d' he
      rw [he] at hplace
      exact hplace

section Catalog
variable {d : Desk B F} {a : OptionAddr}

theorem placeOnBook_catalog (d : Desk B F) (a : OptionAddr) (isBuy : Bool) (p q : ℕ) :
    (d.placeOnBook a isBuy p q).2.market.toCatalog = d.market.toCatalog := by
  unfold placeOnBook
  cases h : d.market.newOrderId.2.addLimitOrder a d.market.newOrderId.1
      (if isBuy then .buy else .sell) p q with
  | mk res x =>
    have hcat : x.toCatalog = d.market.toCatalog := (congrArg (·.2.toCatalog) h).symm
    dsimp only
    rw [h]
    cases res with
    | ok _ => exact hcat
    | error _ => exact hcat

theorem catalog_partsKeep (c : Catalog) : PartsKeep fun d : Desk B F => d.market.toCatalog = c where
  engine _ _ h := h
  cancel _ _ _ h := h
  place d a isBuy p q h := (placeOnBook_catalog d a isBuy p q).trans h

end Catalog

namespace StepsKeep
variable {P : Desk B F → Prop} {d : Desk B F}

theorem forget (hp : StepsKeep P) (h : P d) (i : OrderId) (key : InstrumentKey) (isBuy : Bool) :
    P { d with engine := (d.engine.untrack i).clearInstrumentSlot key isBuy } :=
  hp.same { d with engine := d.engine.untrack i } _
    (MarketMakerEngine.clearInstrumentSlot_activeOrders key isBuy) (hp.untrack d i h)

theorem cancelOrder (hp : StepsKeep P) (h : P d) (i : OrderId) : P (d.cancelOrder i) := by
  unfold Desk.cancelOrder
  cases d.engine.activeOrders.lookup i with
  | none => exact h
  | some o =>
    have hforget := hp.forget h i (.fromOrder o) o.isBuy
    dsimp only
    split_ifs
    · exact hp.cancel _ _ _ hforget
    · exact hforget

theorem cancelOrders (hp : StepsKeep P) (h : P d) (ids : List OrderId) :
    P (ids.foldl Desk.cancelOrder d) := by
  apply List.foldlRecOn (motive := P)
  · exact h
  · intro d' hd i _
    exact hp.cancelOrder hd i

theorem untrackAll (hp : StepsKeep P) (h : P d) (ids : List OrderId) :
    P { d with engine := ids.foldl MarketMakerEngine.untrack d.engine } := by
  apply List.foldlRecOn (motive := fun e => P { d with engine := e }) ids _ h
  intro e he i _
  exact hp.untrack _ i he

theorem dropStale (hp : StepsKeep P) (h : P d) (a : OptionAddr) (stale : Slots) :
    P (d.dropStale a stale) := by
  unfold Desk.dropStale
  split_ifs
  · exact h
  · have hall : P (stale.ids.foldl (fun d id => d.cancelOnBook a id) d) := by
      apply List.foldlRecOn (motive := P)
      · exact h
      · intro d' hd i _
        exact hp.cancel _ _ _ hd
    apply hp.same _ _ _ (hp.untrackAll hall stale.ids)
    rfl

theorem replaceQuotes (hp : StepsKeep P) (h : P d) (ctx : RequoteContext F) (strike : ℕ)
    (style : OptionStyle) {q : QuoteParams} (hq : 0 < q.bidSize ∧ 0 < q.askSize)
    (hb : d.market.hasBook ⟨ctx.symbol, ctx.expiration, strike, style⟩ = true) :
    P (d.replaceQuotes ctx strike style q) := by
  have hc := (catalog_partsKeep (B := B) (F := F) d.market.toCatalog).legs.steps
  unfold Desk.replaceQuotes
  let a : OptionAddr := ⟨ctx.symbol, ctx.expiration, strike, style⟩
  have h₁ : P (d.dropStale a (d.engine.slots (.new a))) := hp.dropStale h _ _
  have hc₁ := hc.dropStale rfl a (d.engine.slots (.new a))
  have h₂ := hp.leg _ q.bidPrice (legInfo ctx strike style q true) (hc₁ ▸ hb) hq.1 h₁
  have hc₂ := hc.leg _ q.bidPrice (legInfo ctx strike style q true) (hc₁ ▸ hb) hq.1 hc₁
  have h₃ := hp.leg _ q.askPrice (legInfo ctx strike style q false) (hc₂ ▸ hb) hq.2 h₂
  apply hp.same _ _ _ h₃
  unfold MarketMakerEngine.recordLegs
  split_ifs <;> rfl

theorem cancelAllOrders (hp : StepsKeep P) (h : P d) : P d.cancelAllOrders :=
  hp.same _ _ rfl (hp.cancelOrders h _)

variable [F64 F]

theorem updateQuote (hp : StepsKeep P) (h : P d) (ctx : RequoteContext F) (strike : ℕ)
    (style : OptionStyle) : P (d.updateQuote ctx strike style) := by
  unfold Desk.updateQuote
  split
  · exact h
  · rename_i q hq
    obtain ⟨hbid, hask, -⟩ := generateQuote_pos hq
    split_ifs with hb
    · exact hp.replaceQuotes h _ _ _ ⟨hbid, hask⟩ hb
    · exact h

theorem requoteSymbol (hp : StepsKeep P) (h : P d) (symbol : String) :
    P (d.requoteSymbol symbol) := by
  unfold Desk.requoteSymbol
  cases d.engine.getPrice symbol with
  | none => exact h
  | some spotCents =>
    dsimp only
    split_ifs
    · apply List.foldlRecOn (motive := P)
      · exact h
      · intro d' hd i _
        exact hp.updateQuote hd _ _ _
    · exact h

theorem requoteAll (hp : StepsKeep P) (h : P d) : P d.requoteAll := by
  unfold Desk.requoteAll
  apply List.foldlRecOn (motive := P)
  · exact h
  · intro d' hd symbol _
    split_ifs
    · exact hp.requoteSymbol hd symbol
    · exact hd

theorem setParameter (hp : StepsKeep P) (h : P d) (v : F) (config : MarketMakerConfig F) :
    P (d.setParameter v config) := by
  unfold Desk.setParameter
  split_ifs
  · have hw : P (d.writeConfig config) := hp.same d _ rfl h
    exact hp.requoteAll (hp.same _ _ rfl hw)
  · exact h

omit [F64 F] in
theorem onOrderFilled (hp : StepsKeep P) (h : P d) (i : OrderId) (price q : ℕ) :
    P (d.onOrderFilled i price q) := by
  unfold Desk.onOrderFilled
  rcases d.engine.onOrderFilled_cases (showOrderId B) i price q with
    ⟨-, he⟩ | ⟨o, events, -, ho, he⟩
  · rw [he]
    exact h
  · rw [he]
    have hfill : P { d with engine := d.engine.takeFill i o q } := by
      unfold MarketMakerEngine.takeFill
      split_ifs with hfull
      · exact hp.forget h i _ _
      · exact hp.fill d i o q ho (Nat.not_le.mp hfull) h
    exact hp.same { d with engine := d.engine.takeFill i o q } _ rfl hfill

theorem operation (hp : StepsKeep P) (h : P d) (op : Operation F) : P (op.apply d) := by
  cases op with
  | updatePrice symbol p =>
    have hpriced : P { d with
        engine := (d.engine.insertPrice symbol p).send (.priceUpdated symbol p) } :=
      hp.same d _ rfl h
    change P (d.updatePrice symbol p)
    unfold Desk.updatePrice
    dsimp only
    split_ifs
    · exact hp.requoteSymbol hpriced symbol
    · exact hpriced
  | setEnabled on =>
    have hset : P { d with engine := d.engine.writeEnabled on } := hp.same d _ rfl h
    change P (d.setEnabled on)
    unfold Desk.setEnabled
    cases on with
    | true => exact hp.same _ _ rfl hset
    | false => exact hp.same _ _ rfl (hp.cancelAllOrders hset)
  | setSymbolEnabled symbol on =>
    change P (d.setSymbolEnabled symbol on)
    have hset : P (d.writeConfig { d.engine.config with
        symbolEnabled := d.engine.config.symbolEnabled.insert symbol on }) := hp.same d _ rfl h
    unfold Desk.setSymbolEnabled
    cases on with
    | true => exact hset
    | false => exact hp.cancelOrders hset _
  | setSpreadMultiplier v => exact hp.setParameter h v _
  | setSizeScalar v => exact hp.setParameter h v _
  | setDirectionalSkew v => exact hp.setParameter h v _
  | cancelAllOrders => exact hp.cancelAllOrders h
  | cancelSymbolOrders symbol => exact hp.cancelOrders h _
  | onOrderFilled i p q => exact hp.onOrderFilled h i p q

end StepsKeep

theorem LegsKeep.operation [F64 F] {P : Desk B F → Prop} {d : Desk B F} (hp : LegsKeep P)
    (h : P d) (op : Operation F) : P (op.apply d) := hp.steps.operation h op

theorem PartsKeep.operation [F64 F] {P : Desk B F → Prop} {d : Desk B F} (hp : PartsKeep P)
    (h : P d) (op : Operation F) : P (op.apply d) := hp.legs.operation h op

/-- No operation of the engine creates or removes a book. -/
theorem operation_catalog [F64 F] (d : Desk B F) (op : Operation F) :
    (op.apply d).market.toCatalog = d.market.toCatalog :=
  (catalog_partsKeep d.market.toCatalog).operation rfl op

/-- The books after an engine operation, and the orders the engine added. -/
structure Passed (d d' : Desk B F) : Prop where
  wanes : Wanes d.market d'.market
  quoted : ∀ i ∈ d'.quoted, i ∈ d.quoted ∨
    d.market.nextOrderId ≤ i ∧ i < d'.market.nextOrderId

variable [LawfulUpstream B]

/-- An order of the engine is refused without a trace, or it is accepted as the engine's. -/
theorem placeOnBook_submits {d : Desk B F} (hx : d.market.Fresh) (a : OptionAddr) (isBuy : Bool)
    (p q : ℕ) :
    let side : Side := if isBuy then .buy else .sell
    (∃ x, (d.placeOnBook a isBuy p q).2 = { d with market := x } ∧ Idle d.market x) ∨
    ∃ x r, (d.placeOnBook a isBuy p q).2 =
        ⟨x, d.engine, d.market.nextOrderId :: d.quoted⟩ ∧
      Submitted d.market x a side (some p) q r (rested d.market.nextOrderId side p .gtc r) := by
  intro side
  have hnew : d.market.newOrderId = (d.market.nextOrderId, d.market.newOrderId.2) := rfl
  unfold placeOnBook addLimitOrder addLimitOrderFull
  rcases addLimit_cases hx a side p q .gtc with ⟨e, x, he, hidle⟩ | ⟨r, x, he, hsub, -⟩
  · left
    refine ⟨x, ?_, hidle⟩
    rw [hnew]
    dsimp only
    rw [he]
    rfl
  · right
    refine ⟨x, r, ?_, hsub⟩
    rw [hnew]
    dsimp only
    rw [he]
    rfl

theorem placeOnBook_passed {d : Desk B F} (hx : d.market.Fresh) (a : OptionAddr) (isBuy : Bool)
    (p q : ℕ) : Passed d (d.placeOnBook a isBuy p q).2 := by
  rcases placeOnBook_submits hx a isBuy p q with ⟨x, he, hidle⟩ | ⟨x, r, he, hs⟩
  · rw [he]
    exact ⟨hidle.toQuiet.wanes hx, fun i hi => .inl hi⟩
  · rw [he]
    constructor
    · exact hs.wanes hx
    · intro i hi
      rcases List.mem_cons.mp hi with rfl | hi
      · exact .inr ⟨le_rfl, hs.nextOrderId ▸ Nat.lt_succ_self _⟩
      · exact .inl hi

/-- No operation of the engine brings an order back, and it adds only orders with fresh ids. -/
theorem operation_passed [F64 F] {d : Desk B F} (hx : d.market.Fresh) (op : Operation F) :
    Passed d (op.apply d) := by
  refine PartsKeep.operation (P := fun d' => Passed d d') ⟨?_, ?_, ?_⟩ ⟨.refl hx, ?_⟩ op
  · exact fun d' e h => ⟨h.wanes, h.quoted⟩
  · intro d' a i h
    have hw := cancelOrder_wanes h.wanes.fresh a i
    refine ⟨h.wanes.trans hw, fun j hj => (h.quoted j hj).imp_right fun hn => ?_⟩
    exact ⟨hn.1, hn.2.trans_le hw.next⟩
  · intro d' a isBuy p q h
    have hp := placeOnBook_passed h.wanes.fresh a isBuy p q
    refine ⟨h.wanes.trans hp.wanes, fun j hj => ?_⟩
    rcases hp.quoted j hj with hj | hj
    · exact (h.quoted j hj).imp_right fun hn => ⟨hn.1, hn.2.trans_le hp.wanes.next⟩
    · exact .inr ⟨h.wanes.next.trans hj.1, hj.2⟩
  · exact fun i hi => .inl hi

end Desk
end MarketMaker
end OptionChainBackend
