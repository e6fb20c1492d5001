import OptionChainBackend.MarketMaker.SymbolSwitch
import OptionChainBackend.MarketMaker.Coverage

/-!
What a requote leaves behind. An instrument that can be quoted has only the legs of its new
quote; one that cannot keeps whatever rested on it.
-/
namespace OptionChainBackend
namespace MarketMaker
open Foundation Upstream Exchange

namespace Desk
variable {B F : Type} [Upstream B] {d d' d'' : Desk B F} {a c : OptionAddr} {i : OrderId}
  {r r' : RestingOrder} {q : QuoteParams} {n : ℕ} {reported : OrderId → ℕ}

/-- Order `i`, resting on `a` as `r`, was placed as one leg of `q`. -/
def IsLeg (d : Desk B F) (a : OptionAddr) (q : QuoteParams) (i : OrderId) (r : RestingOrder) :
    Prop :=
  ∃ isBuy o, d.engine.activeOrders.lookup i = some o ∧ o.addr = a ∧ o.isBuy = isBuy ∧
    o.theoCents = q.theoPrice ∧ o.quantity = (if isBuy then q.bidSize else q.askSize) ∧
    r.side = (if isBuy then .buy else .sell) ∧
    r.price = (if isBuy then q.bidPrice else q.askPrice) ∧ r.visibleQuantity ≤ o.quantity

/-- Every order of the engine on `a` was issued from `n` on, as a leg of `q`. -/
def AllLegs (d : Desk B F) (n : ℕ) (a : OptionAddr) (q : QuoteParams) : Prop :=
  ∀ i r, i ∈ d.quoted → d.market.getOrder a i = some r → n ≤ i ∧ d.IsLeg a q i r

/-- Orders are only placed, on `a` only, under new ids. -/
structure Places (d d' : Desk B F) (a : OptionAddr) : Prop where
  books : ∀ c, c ≠ a → d'.market.books c = d.market.books c
  quoted : ∀ i ∈ d'.quoted, i ∈ d.quoted ∨ d.market.nextOrderId ≤ i
  kept : ∀ i ∈ d.quoted, i ∈ d'.quoted
  issued : d.market.nextOrderId ≤ d'.market.nextOrderId
  now : d'.market.now = d.market.now

namespace Places

omit [Upstream B] in
theorem refl (d : Desk B F) (a : OptionAddr) : Places d d a :=
  ⟨fun _ _ => rfl, fun _ => .inl, fun _ => id, le_rfl, rfl⟩

omit [Upstream B] in
theorem trans (h : Places d d' a) (h' : Places d' d'' a) : Places d d'' a where
  books c hc := (h'.books c hc).trans (h.books c hc)
  quoted i hi := by
    rcases h'.quoted i hi with hold | hnew
    · exact h.quoted i hold
    · exact .inr (h.issued.trans hnew)
  kept i hi := h'.kept i (h.kept i hi)
  issued := h.issued.trans h'.issued
  now := h'.now.trans h.now

theorem getOrder (h : Places d d' a) (hc : c ≠ a) (i : OrderId) :
    d'.market.getOrder c i = d.market.getOrder c i := by
  simp [Exchange.getOrder, h.books c hc]

end Places

section Frame

theorem cancelOnBook_places (d : Desk B F) (a : OptionAddr) (i : OrderId) :
    Places d (d.cancelOnBook a i) a :=
  ⟨fun _ hc => Function.update_of_ne hc _ _, fun _ => .inl, fun _ => id, le_rfl, rfl⟩

theorem dropStale_places (d : Desk B F) (a : OptionAddr) (stale : Slots) :
    Places d (d.dropStale a stale) a := by
  have hfold : Places d (stale.ids.foldl (fun d i => d.cancelOnBook a i) d) a := by
    apply List.foldlRecOn (motive := fun d' => Places d d' a)
    · exact .refl d a
    · exact fun d' hd i _ => hd.trans (d'.cancelOnBook_places a i)
  unfold dropStale
  split_ifs
  · exact .refl d a
  · exact ⟨hfold.books, hfold.quoted, hfold.kept, hfold.issued, hfold.now⟩

theorem placeOnBook_places (d : Desk B F) (a : OptionAddr) (isBuy : Bool) (price q : ℕ) :
    Places d (d.placeOnBook a isBuy price q).2 a := by
  unfold placeOnBook
  dsimp only
  split
  · rename_i x hx
    have hmarket := (congrArg Prod.snd hx).symm
    subst hmarket
    refine ⟨fun c hc => Function.update_of_ne hc _ _, fun i hi => ?_,
      fun i => List.mem_cons_of_mem _, Nat.le_succ _, rfl⟩
    rcases List.mem_cons.mp hi with hnew | hold
    · exact .inr hnew.ge
    · exact .inl hold
  · rename_i x hx
    have hmarket := (congrArg Prod.snd hx).symm
    subst hmarket
    exact ⟨fun c hc => Function.update_of_ne hc _ _, fun _ => .inl, fun _ => id, Nat.le_succ _,
      rfl⟩

theorem placeLeg_places (d : Desk B F) (a : OptionAddr) (price : ℕ) (o : ActiveOrderInfo) :
    Places d (d.placeLeg a price o).2 a := by
  have hplace := d.placeOnBook_places a o.isBuy price o.quantity
  unfold placeLeg
  split
  · rename_i hx
    rw [hx] at hplace
    exact ⟨hplace.books, hplace.quoted, hplace.kept, hplace.issued, hplace.now⟩
  · rename_i hx
    rwa [hx] at hplace

theorem replaceQuotes_places (d : Desk B F) (ctx : RequoteContext F) (strike : ℕ)
    (style : OptionStyle) (q : QuoteParams) :
    Places d (d.replaceQuotes ctx strike style q) ⟨ctx.symbol, ctx.expiration, strike, style⟩ := by
  let a : OptionAddr := ⟨ctx.symbol, ctx.expiration, strike, style⟩
  have hdrop := d.dropStale_places a (d.engine.slots (.new a))
  have hbid := (d.dropStale a (d.engine.slots (.new a))).placeLeg_places a q.bidPrice
    (legInfo ctx strike style q true)
  have hall := (hdrop.trans hbid).trans (placeLeg_places _ a q.askPrice
    (legInfo ctx strike style q false))
  exact ⟨hall.books, hall.quoted, hall.kept, hall.issued, hall.now⟩

theorem updateQuote_places [F64 F] (d : Desk B F) (ctx : RequoteContext F) (strike : ℕ)
    (style : OptionStyle) :
    Places d (d.updateQuote ctx strike style) ⟨ctx.symbol, ctx.expiration, strike, style⟩ := by
  unfold updateQuote
  split
  · exact .refl d _
  · split_ifs
    · exact d.replaceQuotes_places ctx strike style _
    · exact .refl d _

end Frame

section Legs
variable [LawfulUpstream B]

/-- One more leg of the quote. -/
theorem AllLegs.placeLeg {ctx : RequoteContext F} {strike : ℕ} {style : OptionStyle}
    (h : d.AllLegs n ⟨ctx.symbol, ctx.expiration, strike, style⟩ q) (hs : d.Sound reported)
    (hn : n ≤ d.market.nextOrderId) (isBuy : Bool) (price : ℕ)
    (hprice : price = if isBuy then q.bidPrice else q.askPrice) :
    (d.placeLeg ⟨ctx.symbol, ctx.expiration, strike, style⟩ price
      (legInfo ctx strike style q isBuy)).2.AllLegs n
        ⟨ctx.symbol, ctx.expiration, strike, style⟩ q := by
  let a : OptionAddr := ⟨ctx.symbol, ctx.expiration, strike, style⟩
  let o := legInfo ctx strike style q isBuy
  rcases d.placeLeg_answer price o (hs.fresh.absent le_rfl) with
    ⟨x, he, hq, -, -⟩ | ⟨x, res, he, hf, -, -⟩
  · rw [show d.placeLeg ⟨ctx.symbol, ctx.expiration, strike, style⟩ price o = _ from he]
    intro i r hi hr
    exact h i r hi ((hq.getOrder _ _).symm.trans hr)
  · rw [show d.placeLeg ⟨ctx.symbol, ctx.expiration, strike, style⟩ price o = _ from he]
    intro i r hi hr
    have hlookup : (d.engine.track d.market.nextOrderId o).activeOrders.lookup i =
        if i = d.market.nextOrderId then some o else d.engine.activeOrders.lookup i := by
      simp [MarketMakerEngine.track]
    change x.getOrder o.addr i = some r at hr
    rw [hf.getOrder, if_pos rfl] at hr
    by_cases hnew : i = d.market.nextOrderId
    · -- the leg itself, with what is left of it
      rw [if_pos hnew] at hlookup hr
      obtain ⟨-, hr⟩ := Option.ite_none_right_eq_some.mp hr
      obtain rfl := Option.some.inj hr
      have hle := hf.matched.remaining_le
      refine ⟨hnew ▸ hn, isBuy, o, hlookup, rfl, rfl, rfl, rfl, rfl, hprice, hle⟩
    · rw [if_neg hnew] at hlookup hr
      obtain ⟨r', hr', hred⟩ := Option.bind_eq_some_iff.mp hr
      obtain ⟨-, rfl⟩ := RestingOrder.reduce_some hred
      have hold : i ∈ d.quoted := by
        rcases List.mem_cons.mp hi with he | hi
        · exact absurd he hnew
        · exact hi
      obtain ⟨hni, isBuy', o', hact, haddr, hbuy, htheo, hqty, hside, hp, hvis⟩ := h i r' hold hr'
      exact ⟨hni, isBuy', o', hlookup.trans hact, haddr, hbuy, htheo, hqty, hside, hp,
        (Nat.sub_le _ _).trans hvis⟩

/-- The instrument itself, requoted: only the legs of the new quote rest. -/
theorem replaceQuotes_allLegs (h : d.Tidy reported) (hc : CancelRemoves B)
    (ctx : RequoteContext F) (strike : ℕ) (style : OptionStyle) (q : QuoteParams)
    (hb : d.market.hasBook ⟨ctx.symbol, ctx.expiration, strike, style⟩ = true)
    (hn : n ≤ d.market.nextOrderId) :
    (d.replaceQuotes ctx strike style q).AllLegs n
      ⟨ctx.symbol, ctx.expiration, strike, style⟩ q := by
  let a : OptionAddr := ⟨ctx.symbol, ctx.expiration, strike, style⟩
  have hdrop := h.dropStale hc a
  have hbid := hdrop.placeLeg q.bidPrice (o := legInfo ctx strike style q true) rfl hb rfl
  have hissued := (d.dropStale_places a (d.engine.slots (.new a))).issued
  have hnone : (d.dropStale a (d.engine.slots (.new a))).AllLegs n a q := by
    intro i r hi hr
    exact absurd hi (hdrop.vacant hr)
  have hfirst := hnone.placeLeg hdrop.sound (hn.trans hissued) true q.bidPrice rfl
  have hsecond := hfirst.placeLeg hbid.sound
    ((hn.trans hissued).trans (placeLeg_places _ a _ _).issued) false q.askPrice rfl
  intro i r hi hr
  obtain ⟨hni, isBuy, o, hact, hleg⟩ := hsecond i r hi hr
  refine ⟨hni, isBuy, o, ?_, hleg⟩
  rw [← hact]
  unfold Desk.replaceQuotes MarketMakerEngine.recordLegs
  dsimp only
  split_ifs <;> rfl

variable [F64 F]

theorem updateQuote_allLegs (h : d.Tidy reported) (hc : CancelRemoves B)
    (ctx : RequoteContext F) (strike : ℕ) (style : OptionStyle)
    (hq : d.engine.quoter.generateQuote d.market.now (quoteInput ctx strike style) = some q)
    (hb : d.market.hasBook ⟨ctx.symbol, ctx.expiration, strike, style⟩ = true)
    (hn : n ≤ d.market.nextOrderId) :
    (d.updateQuote ctx strike style).AllLegs n
      ⟨ctx.symbol, ctx.expiration, strike, style⟩ q := by
  unfold Desk.updateQuote
  simp only [hq, hb, if_true]
  exact replaceQuotes_allLegs h hc ctx strike style q hb hn

/-- Another instrument, requoted. -/
theorem AllLegs.updateQuote (h : d.AllLegs n a q) (ht : d.Tidy reported) (hc : CancelRemoves B)
    (ctx : RequoteContext F) (strike : ℕ) (style : OptionStyle)
    (hne : a ≠ ⟨ctx.symbol, ctx.expiration, strike, style⟩) :
    (d.updateQuote ctx strike style).AllLegs n a q := by
  have hplaces := d.updateQuote_places ctx strike style
  have hframe := (ht.updateQuote hc ctx strike style).elsewhere
  intro i r hi hr
  rw [hplaces.getOrder hne] at hr
  have hold : i ∈ d.quoted := by
    rcases hplaces.quoted i hi with hold | hnew
    · exact hold
    · exact absurd (ht.fresh.resting hr) (Nat.not_lt.mpr hnew)
  obtain ⟨hni, isBuy, o, hact, haddr, hleg⟩ := h i r hold hr
  refine ⟨hni, isBuy, o, (hframe.active i o ?_).mpr hact, haddr, hleg⟩
  intro hkey
  exact hne (haddr.symm.trans (InstrumentKey.new_injective hkey))

end Legs

section Requote

/-- The quote the engine gives for the instrument on `a` at its price and configuration. -/
def currentQuote [F64 F] (d : Desk B F) (a : OptionAddr) : Option QuoteParams :=
  (d.engine.getPrice a.underlying).bind fun spotCents =>
    d.engine.quoter.generateQuote d.market.now
      (quoteInput (d.requoteContext a.underlying spotCents a.expiration) a.strike a.style)

/-- In the course of a requote begun at `d`. -/
structure Passing (d d' : Desk B F) (reported : OrderId → ℕ) : Prop
    extends Kept d d' reported where
  now : d'.market.now = d.market.now
  issued : d.market.nextOrderId ≤ d'.market.nextOrderId
  quoted : ∀ i ∈ d'.quoted, i ∈ d.quoted ∨ d.market.nextOrderId ≤ i

/-- Nothing changed on `a`, and the orders of the engine are still its own. -/
def Stays (d d' : Desk B F) (a : OptionAddr) : Prop :=
  d'.market.books a = d.market.books a ∧ ∀ i ∈ d.quoted, i ∈ d'.quoted

theorem Passing.refl (h : d.Tidy reported) : Passing d d reported :=
  ⟨⟨h, rfl, rfl⟩, rfl, le_rfl, fun _ => .inl⟩

theorem Passing.requoteContext (h : Passing d d' reported) (symbol : String) (spotCents : ℕ)
    (e : ExpirationDate) :
    d'.requoteContext symbol spotCents e = d.requoteContext symbol spotCents e := by
  unfold Desk.requoteContext
  rw [h.config, h.now]

omit [Upstream B] in
theorem mem_instruments (h : d.market.hasBook a = true) :
    (a.expiration, a.strike, a.style) ∈ d.instruments a.underlying := by
  simp only [Catalog.hasBook, Bool.and_eq_true, Catalog.getExpiration, Catalog.getStrike,
    decide_eq_true_eq] at h
  refine List.mem_flatMap.mpr ⟨_, h.1.2, List.mem_flatMap.mpr ⟨_, h.2, ?_⟩⟩
  cases a.style <;> simp

variable [F64 F]

theorem Passing.currentQuote (h : Passing d d' reported) (a : OptionAddr) :
    d'.currentQuote a = d.currentQuote a := by
  unfold Desk.currentQuote MarketMakerEngine.getPrice
  rw [h.prices, h.quoter, h.now]
  simp only [h.requoteContext]

variable [LawfulUpstream B]

theorem Passing.updateQuote (h : Passing d d' reported) (hc : CancelRemoves B)
    (ctx : RequoteContext F) (strike : ℕ) (style : OptionStyle) :
    Passing d (d'.updateQuote ctx strike style) reported := by
  have hr := h.tidy.updateQuote hc ctx strike style
  have hplaces := d'.updateQuote_places ctx strike style
  refine ⟨⟨hr.tidy, hr.catalog.trans h.catalog, hr.settings.trans h.settings⟩,
    hplaces.now.trans h.now, h.issued.trans hplaces.issued, fun i hi => ?_⟩
  rcases hplaces.quoted i hi with hold | hnew
  · exact h.quoted i hold
  · exact .inr (h.issued.trans hnew)

theorem Passing.requoteSymbol (h : Passing d d' reported) (hc : CancelRemoves B)
    (symbol : String) : Passing d (d'.requoteSymbol symbol) reported := by
  unfold Desk.requoteSymbol
  split
  · exact h
  · split_ifs
    · apply List.foldlRecOn (motive := fun d' => Passing d d' reported)
      · exact h
      · exact fun _ hd i _ => hd.updateQuote hc _ i.2.1 i.2.2
    · exact h

/-- A requote of one symbol leaves on each of its instruments only the new quote. -/
theorem requoteSymbol_allLegs (ht : d.Tidy reported) (hc : CancelRemoves B)
    (hb : d.market.hasBook a = true) (hq : d.currentQuote a = some q)
    (hn : n ≤ d.market.nextOrderId) : (d.requoteSymbol a.underlying).AllLegs n a q := by
  obtain ⟨spotCents, hp, hgen⟩ := Option.bind_eq_some_iff.mp hq
  have hget : d.market.get a.underlying = true := by
    simp only [Catalog.hasBook, Bool.and_eq_true] at hb
    exact hb.1.1
  have hown : ∀ d', Passing d d' reported → (d'.updateQuote
      (d.requoteContext a.underlying spotCents a.expiration) a.strike a.style).AllLegs n a q := by
    intro d' hd
    apply updateQuote_allLegs hd.tidy hc (n := n)
    · rw [hd.quoter, hd.now]
      exact hgen
    · rw [hd.catalog]
      exact hb
    · exact hn.trans hd.issued
  unfold Desk.requoteSymbol
  simp only [hp, hget, if_true]
  apply foldl_establishes (K := fun d' => Passing d d' reported) (P := fun d' => d'.AllLegs n a q)
    (i := (a.expiration, a.strike, a.style))
  · exact fun d' i hd => hd.updateQuote hc _ i.2.1 i.2.2
  · intro d' i hd hall
    by_cases hi : a = ⟨a.underlying, i.1, i.2.1, i.2.2⟩
    · have hsame : i = (a.expiration, a.strike, a.style) := by
        rw [hi]
      rw [hsame]
      exact hown d' hd
    · exact hall.updateQuote hd.tidy hc _ i.2.1 i.2.2 hi
  · exact hown
  · exact .refl ht
  · exact mem_instruments hb

/-- A requote of another symbol. -/
theorem AllLegs.requoteSymbol (h : d.AllLegs n a q) (ht : d.Tidy reported) (hc : CancelRemoves B)
    {symbol : String} (hne : a.underlying ≠ symbol) :
    (d.requoteSymbol symbol).AllLegs n a q := by
  unfold Desk.requoteSymbol
  split
  · exact h
  · split_ifs
    · apply (List.foldlRecOn (motive := fun d' => Passing d d' reported ∧ d'.AllLegs n a q) _ _
        ⟨.refl ht, h⟩ _).2
      intro d' hd i _
      refine ⟨hd.1.updateQuote hc _ i.2.1 i.2.2, hd.2.updateQuote hd.1.tidy hc _ i.2.1 i.2.2 ?_⟩
      exact fun he => hne (congrArg OptionAddr.underlying he)
    · exact h

theorem requoteAll_allLegs (ht : d.Tidy reported) (hc : CancelRemoves B)
    (hb : d.market.hasBook a = true) (hq : d.currentQuote a = some q)
    (hon : d.engine.isSymbolEnabled a.underlying = true) (hn : n ≤ d.market.nextOrderId) :
    d.requoteAll.AllLegs n a q := by
  have hlisted : a.underlying ∈ d.market.underlyings := by
    simp only [Catalog.hasBook, Bool.and_eq_true, Catalog.get, decide_eq_true_eq] at hb
    exact hb.1.1
  have hown : ∀ d', Passing d d' reported → (d'.requoteSymbol a.underlying).AllLegs n a q := by
    intro d' hd
    apply requoteSymbol_allLegs hd.tidy hc
    · rw [hd.catalog]
      exact hb
    · rw [hd.currentQuote]
      exact hq
    · exact hn.trans hd.issued
  have hswitch : ∀ d', Passing d d' reported → d'.engine.isSymbolEnabled a.underlying = true :=
    fun d' hd => (MarketMakerEngine.isSymbolEnabled_congr hd.settings).trans hon
  unfold Desk.requoteAll
  apply foldl_establishes (K := fun d' => Passing d d' reported) (P := fun d' => d'.AllLegs n a q)
    (i := a.underlying)
  · intro d' symbol hd
    split_ifs
    · exact hd.requoteSymbol hc symbol
    · exact hd
  · intro d' symbol hd hall
    split_ifs
    · by_cases hs : a.underlying = symbol
      · subst hs
        exact hown d' hd
      · exact hall.requoteSymbol hd.tidy hc hs
    · exact hall
  · intro d' hd
    rw [if_pos (hswitch d' hd)]
    exact hown d' hd
  · exact .refl ht
  · exact hlisted

omit [Upstream B] [F64 F] [LawfulUpstream B] in
theorem Stays.trans (h : Stays d d' a) (h' : Stays d' d'' a) : Stays d d'' a :=
  ⟨h'.1.trans h.1, fun i hi => h'.2 i (h.2 i hi)⟩

/-- An instrument without a quote is passed over. -/
theorem requoteSymbol_stays (ht : d.Tidy reported) (hc : CancelRemoves B)
    (hq : d.currentQuote a = none) (symbol : String) : Stays d (d.requoteSymbol symbol) a := by
  have hrefl : Stays d d a := ⟨rfl, fun _ => id⟩
  unfold Desk.requoteSymbol
  cases hp : d.engine.getPrice symbol with
  | none => exact hrefl
  | some spotCents =>
    dsimp only
    split_ifs
    · apply (List.foldlRecOn (motive := fun d' => Passing d d' reported ∧ Stays d d' a) _ _
        ⟨.refl ht, hrefl⟩ _).2
      intro d' hd i _
      have hplaces := d'.updateQuote_places (d.requoteContext symbol spotCents i.1) i.2.1 i.2.2
      refine ⟨hd.1.updateQuote hc _ i.2.1 i.2.2, hd.2.trans ⟨?_, hplaces.kept⟩⟩
      by_cases hi : a = ⟨symbol, i.1, i.2.1, i.2.2⟩
      · have hnone : d'.engine.quoter.generateQuote d'.market.now
            (quoteInput (d.requoteContext symbol spotCents i.1) i.2.1 i.2.2) = none := by
          rw [hi] at hq
          rw [hd.1.quoter, hd.1.now]
          simpa only [Desk.currentQuote, hp, Option.bind_some] using hq
        unfold Desk.updateQuote
        rw [hnone]
      · exact hplaces.books a hi
    · exact hrefl

theorem requoteAll_stays (ht : d.Tidy reported) (hc : CancelRemoves B)
    (hq : d.currentQuote a = none) : Stays d d.requoteAll a := by
  unfold Desk.requoteAll
  apply (List.foldlRecOn (motive := fun d' => Passing d d' reported ∧ Stays d d' a) _ _
    ⟨.refl ht, rfl, fun _ => id⟩ _).2
  intro d' hd symbol _
  split_ifs
  · have hnone := hd.1.currentQuote a
    rw [hq] at hnone
    exact ⟨hd.1.requoteSymbol hc symbol, hd.2.trans (requoteSymbol_stays hd.1.tidy hc hnone symbol)⟩
  · exact hd

theorem Passing.requoteAll (h : Passing d d' reported) (hc : CancelRemoves B) :
    Passing d d'.requoteAll reported := by
  unfold Desk.requoteAll
  apply List.foldlRecOn (motive := fun d' => Passing d d' reported)
  · exact h
  · intro d' hd symbol _
    split_ifs
    · exact hd.requoteSymbol hc symbol
    · exact hd

end Requote

section Revisions
variable [F64 F]

/-- What is quoted anew at a price or a parameter. -/
inductive Revision (F : Type) where
  | price (priceCents : ℕ)
  | spreadMultiplier (multiplier : F)
  | sizeScalar (scalar : F)
  | directionalSkew (skew : F)

def Revision.operation (symbol : String) : Revision F → Operation F
  | .price p => .updatePrice symbol p
  | .spreadMultiplier v => .setSpreadMultiplier v
  | .sizeScalar v => .setSizeScalar v
  | .directionalSkew v => .setDirectionalSkew v

/-- A parameter stored, unless its value is ignored. -/
def storeParameter (d : Desk B F) (value : F) (config : MarketMakerConfig F) :
    Option (Desk B F) :=
  if F64.isFinite value then some (d.writeConfig config) else none

/-- The desk with the new price or parameter, before anything is requoted. -/
def Revision.store (d : Desk B F) (symbol : String) : Revision F → Option (Desk B F)
  | .price p => some { d with engine := d.engine.insertPrice symbol p }
  | .spreadMultiplier v => d.storeParameter v (d.engine.config.withSpreadMultiplier v)
  | .sizeScalar v => d.storeParameter v (d.engine.config.withSizeScalar v)
  | .directionalSkew v => d.storeParameter v (d.engine.config.withDirectionalSkew v)

/-- Between `d` and `d'`: whatever the engine has resting on a book of `symbol` was placed since,
as a leg of the quote of the present price and configuration. -/
def NoStale (d d' : Desk B F) (symbol : String) : Prop :=
  ∀ a i r, a.underlying = symbol → i ∈ d'.quoted → d'.market.getOrder a i = some r →
    d.market.nextOrderId ≤ i ∧ ∃ q, d'.currentQuote a = some q ∧ d'.IsLeg a q i r

/-- Every instrument of the symbol the engine is resting on can be quoted. -/
def Requotable (d : Desk B F) (symbol : String) (revision : Revision F) : Prop :=
  ∀ a i, a.underlying = symbol → i ∈ d.quoted → (d.market.getOrder a i).isSome = true →
    ∃ d0 ∈ revision.store d symbol, (d0.currentQuote a).isSome = true

/-- A requote begun at `d`, at the quotes of `quote`, and ended at `d'`. -/
structure Revised (d d' : Desk B F) (symbol : String) (quote : OptionAddr → Option QuoteParams)
    (reported : OrderId → ℕ) : Prop where
  tidy : d'.Tidy reported
  catalog : d'.market.toCatalog = d.market.toCatalog
  quoted : ∀ i ∈ d'.quoted, i ∈ d.quoted ∨ d.market.nextOrderId ≤ i
  current : ∀ a, d'.currentQuote a = quote a
  legs : ∀ a q, a.underlying = symbol → d.market.hasBook a = true → quote a = some q →
    d'.AllLegs d.market.nextOrderId a q
  stays : ∀ a, quote a = none → Stays d d' a

variable [LawfulUpstream B]

/-- What still rests after a requote is stale unless its instrument has a quote. -/
theorem Revised.noStale_iff {symbol : String} {quote : OptionAddr → Option QuoteParams}
    (h : Revised d d' symbol quote reported) (hf : d.market.Fresh) :
    NoStale d d' symbol ↔ ∀ a i, a.underlying = symbol → i ∈ d.quoted →
      (d.market.getOrder a i).isSome = true → (quote a).isSome = true := by
  constructor
  · intro hfresh a i ha hi hrest
    by_contra hnone
    obtain ⟨hbook, hkept⟩ := h.stays a (Option.not_isSome_iff_eq_none.mp hnone)
    obtain ⟨r, hr⟩ := Option.isSome_iff_exists.mp hrest
    have hr' : d'.market.getOrder a i = some r := by
      rw [← hr]
      simp only [Exchange.getOrder, hbook]
    exact absurd (hf.resting hr) (Nat.not_lt.mpr (hfresh a i r ha (hkept i hi) hr').1)
  · intro hok a i r ha hi hr
    cases hq : quote a with
    | some q =>
      -- the order is tracked on `a`, so the book exists
      have hpos := LawfulUpstream.getOrder_pos _ _ _ hr
      have hhome := h.tidy.homed i hi
      obtain ⟨o, ho⟩ := Option.isSome_iff_exists.mp
        (h.tidy.tracked i hi (by rwa [hhome.remaining_eq hr]))
      obtain ⟨-, hplaced, hbook⟩ := h.tidy.known ho
      have haddr : o.addr = a := Option.some.inj (hplaced.symm.trans (hhome hr))
      rw [haddr, h.catalog] at hbook
      obtain ⟨hn, hleg⟩ := h.legs a q ha hbook hq i r hi hr
      exact ⟨hn, q, (h.current a).trans hq, hleg⟩
    | none =>
      have hr' : d.market.getOrder a i = some r := by
        rw [← hr]
        simp only [Exchange.getOrder, (h.stays a hq).1]
      have hold : i ∈ d.quoted := by
        rcases h.quoted i hi with hold | hnew
        · exact hold
        · exact absurd (hf.resting hr') (Nat.not_lt.mpr hnew)
      have hsome := hok a i ha hold (by rw [hr']; rfl)
      rw [hq] at hsome
      cases hsome

theorem setParameter_revised (ht : d.Tidy reported) (hc : CancelRemoves B) {symbol : String}
    {v : F} (hv : F64.isFinite v = true) {config : MarketMakerConfig F}
    (hon : config.symbolEnabled = d.engine.config.symbolEnabled)
    (hs : d.engine.isSymbolEnabled symbol = true) :
    Revised d (d.setParameter v config) symbol (d.writeConfig config).currentQuote reported := by
  let d1 : Desk B F := { d with engine := (d.writeConfig config).engine.broadcastConfigChange }
  have hw : d1.Tidy reported := ht.congr rfl rfl
  have hd : Passing d1 d1.requoteAll reported := (Passing.refl hw).requoteAll hc
  have hswitch : d1.engine.isSymbolEnabled symbol = true := by
    unfold MarketMakerEngine.isSymbolEnabled at hs
    rw [← hon] at hs
    exact hs
  have happly : d.setParameter v config = d1.requoteAll := by
    unfold Desk.setParameter
    exact if_pos hv
  rw [happly]
  refine ⟨hd.tidy, hd.catalog, hd.quoted, hd.currentQuote, ?_, fun a hq => ?_⟩
  · rintro a q rfl hb hq
    exact requoteAll_allLegs hw hc hb hq hswitch le_rfl
  · exact requoteAll_stays hw hc hq

theorem updatePrice_revised (ht : d.Tidy reported) (hc : CancelRemoves B) {symbol : String}
    (p : ℕ) (hon : d.engine.isEnabled = true) (hs : d.engine.isSymbolEnabled symbol = true) :
    Revised d (d.updatePrice symbol p) symbol
      { d with engine := d.engine.insertPrice symbol p }.currentQuote reported := by
  let d1 : Desk B F :=
    { d with engine := (d.engine.insertPrice symbol p).send (.priceUpdated symbol p) }
  have hw : d1.Tidy reported := ht.congr rfl rfl
  have hd : Passing d1 (d1.requoteSymbol symbol) reported := (Passing.refl hw).requoteSymbol hc _
  have hswitch : (d1.engine.isEnabled && d1.engine.isSymbolEnabled symbol) = true := by
    rw [Bool.and_eq_true]
    exact ⟨hon, hs⟩
  have happly : d.updatePrice symbol p = d1.requoteSymbol symbol := by
    unfold Desk.updatePrice
    exact if_pos hswitch
  rw [happly]
  refine ⟨hd.tidy, hd.catalog, hd.quoted, hd.currentQuote, ?_, fun a hq => ?_⟩
  · rintro a q rfl hb hq
    exact requoteSymbol_allLegs hw hc hb hq le_rfl
  · exact requoteSymbol_stays hw hc hq symbol

omit [LawfulUpstream B] in
/-- A setter that ignores its value leaves every quote where it is. -/
theorem noStale_refl_iff (hf : d.market.Fresh) (symbol : String) : NoStale d d symbol ↔
    ∀ a i, a.underlying = symbol → i ∈ d.quoted → (d.market.getOrder a i).isSome = false := by
  constructor
  · intro h a i ha hi
    cases hr : d.market.getOrder a i with
    | none => rfl
    | some r => exact absurd (hf.resting hr) (Nat.not_lt.mpr (h a i r ha hi hr).1)
  · intro h a i r ha hi hr
    have hnone := h a i ha hi
    rw [hr] at hnone
    cases hnone

theorem setParameter_noStale_iff (ht : d.Tidy reported) (hc : CancelRemoves B) {symbol : String}
    (v : F) {config : MarketMakerConfig F}
    (hon : config.symbolEnabled = d.engine.config.symbolEnabled)
    (hs : d.engine.isSymbolEnabled symbol = true) :
    NoStale d (d.setParameter v config) symbol ↔ ∀ a i, a.underlying = symbol → i ∈ d.quoted →
      (d.market.getOrder a i).isSome = true →
      ∃ d0 ∈ d.storeParameter v config, (d0.currentQuote a).isSome = true := by
  unfold storeParameter
  by_cases hv : F64.isFinite v = true
  · rw [(setParameter_revised ht hc hv hon hs).noStale_iff ht.fresh]
    simp [hv]
  · have hsame : d.setParameter v config = d := if_neg hv
    rw [hsame, noStale_refl_iff ht.fresh]
    simp [hv]

end Revisions
end Desk

namespace Session
variable {B F : Type} [Upstream B] [LawfulUpstream B] [F64 F] {s : Session B F}

/-- In every state reached, with both switches on, a price or parameter change leaves no stale
quote on a symbol exactly when every instrument quoted there can be quoted again. -/
theorem requote_leaves_no_stale_iff (hc : CancelRemoves B) (h : Reaches Start step Honest s)
    (symbol : String) (hon : s.desk.engine.isEnabled = true)
    (hs : s.desk.engine.isSymbolEnabled symbol = true) (revision : Desk.Revision F) :
    Desk.NoStale s.desk (s.step (.engine (revision.operation symbol))).desk symbol ↔
      s.desk.Requotable symbol revision := by
  have ht : s.desk.Tidy s.reported := reaches_tidy hc h
  cases revision with
  | price p =>
    rw [show (s.step (.engine ((Desk.Revision.price p).operation symbol))).desk =
      s.desk.updatePrice symbol p from rfl]
    rw [(Desk.updatePrice_revised ht hc p hon hs).noStale_iff ht.fresh]
    simp [Desk.Requotable, Desk.Revision.store]
  | spreadMultiplier v => exact Desk.setParameter_noStale_iff ht hc v rfl hs
  | sizeScalar v => exact Desk.setParameter_noStale_iff ht hc v rfl hs
  | directionalSkew v => exact Desk.setParameter_noStale_iff ht hc v rfl hs

end Session

section Reference

/-- Rationals with one value that is not finite. -/
instance : F64 (Option ℚ) where
  ofNat n := some n
  ofRat q := some q
  add := Option.map₂ (· + ·)
  sub := Option.map₂ (· - ·)
  mul := Option.map₂ (· * ·)
  div x y := if y = some 0 then none else Option.map₂ (· / ·) x y
  neg := Option.map (- ·)
  abs := Option.map abs
  round := Option.map F64.round
  max
    | some x, some y => some (max x y)
    | x, y => x <|> y
  lt
    | some x, some y => F64.lt x y
    | _, _ => false
  isFinite := Option.isSome
  toU64 x := (x.map F64.toU64).getD 0
  toI64 x := (x.map F64.toI64).getD 0

/-- Exercise value, divided and multiplied by the strike on the way: at strike 0 and spot 0 the
logarithm of the moneyness is not a number. -/
def moneynessQuoter : Quoter (Option ℚ) :=
  .standard ⟨fun _ spot strike _ style _ =>
    if spot = some 0 ∧ strike = some 0 then none
    else match style with
      | .call => F64.max (F64.sub spot strike) (some 0)
      | .put => F64.max (F64.sub strike spot) (some 0)⟩

def zeroStrike : OptionAddr := ⟨"BTC", .days 30, 0, .call⟩

/-- Quotes are up at a price of 10000 cents. -/
def zeroStrikeQuoted : Session ReferenceBook (Option ℚ) :=
  [Step.books (.openBook zeroStrike), .engine (.updatePrice "BTC" 10000)].foldl Session.step
    ⟨.new moneynessQuoter, fun _ => 0⟩

theorem zeroStrikeQuoted_reaches :
    Reaches Session.Start Session.step Session.Honest zeroStrikeQuoted := by
  have hstart : (⟨.new moneynessQuoter, fun _ => 0⟩ :
      Session ReferenceBook (Option ℚ)).Start :=
    ⟨⟨_, rfl⟩, rfl, rfl, init_fresh⟩
  exact (Reaches.start hstart).run ⟨trivial, trivial, trivial⟩

/-- The underlying is marked down to nothing, the pricer has no value, and the bid of 9950 stays. -/
theorem stale_bid_survives : ¬ ∀ (s : Session ReferenceBook (Option ℚ)) (symbol : String)
    (revision : Desk.Revision (Option ℚ)), Reaches Session.Start Session.step Session.Honest s →
    s.desk.engine.isEnabled = true → s.desk.engine.isSymbolEnabled symbol = true →
    Desk.NoStale s.desk (s.step (.engine (revision.operation symbol))).desk symbol := by
  intro h
  have hfresh := h zeroStrikeQuoted "BTC" (.price 0) zeroStrikeQuoted_reaches (by decide +kernel)
    (by decide +kernel)
  have hrests : (((zeroStrikeQuoted.step (.engine (.updatePrice "BTC" 0))).desk.market.getOrder
      zeroStrike 0).map (·.price)) = some 9950 := by decide +kernel
  obtain ⟨r, hr, -⟩ := Option.map_eq_some_iff.mp hrests
  have hnew := (hfresh zeroStrike 0 r rfl (by decide +kernel) hr).1
  have hissued : ¬ zeroStrikeQuoted.desk.market.nextOrderId ≤ 0 := by decide +kernel
  exact hissued hnew

theorem requote_leaves_no_stale_btc :
    let s := (quotedSteps.foldl Session.step Session.reference)
    Desk.NoStale s.desk (s.step (.engine (.setSpreadMultiplier 2))).desk "BTC" := by
  have hrun : Reaches Session.Start Session.step Session.Honest
      (quotedSteps.foldl Session.step Session.reference) :=
    (Reaches.start Session.reference_start).run (by decide +kernel)
  have hiff := Session.requote_leaves_no_stale_iff ReferenceBook.cancelRemoves hrun "BTC"
    (by decide +kernel) (by decide +kernel) (.spreadMultiplier 2)
  apply hiff.mpr
  intro a i ha _ _
  have hprice : (quotedSteps.foldl Session.step Session.reference).desk.engine.prices.lookup "BTC" =
      some 10000 := by decide +kernel
  refine ⟨_, rfl, ?_⟩
  unfold Desk.currentQuote MarketMakerEngine.getPrice
  rw [ha]
  show ((Option.bind ((quotedSteps.foldl Session.step Session.reference
    ).desk.engine.prices.lookup "BTC") _)).isSome = true
  rw [hprice]
  rfl

end Reference
end MarketMaker
end OptionChainBackend
