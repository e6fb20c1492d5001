import OptionChainBackend.Foundation.Runs
import OptionChainBackend.MarketMaker.Requote
import OptionChainBackend.Upstream.Reference

/-!
Runs of the engine beside other users of the same books. Fills are reported to the engine
only as far as they really executed.
-/
namespace OptionChainBackend
namespace MarketMaker
open Foundation Upstream Exchange

/-- The completed operations of the engine. -/
inductive Operation (F : Type) where
  | updatePrice (symbol : String) (priceCents : ℕ)
  | setEnabled (enabled : Bool)
  | setSymbolEnabled (symbol : String) (enabled : Bool)
  | setSpreadMultiplier (multiplier : F)
  | setSizeScalar (scalar : F)
  | setDirectionalSkew (skew : F)
  | cancelAllOrders
  | cancelSymbolOrders (symbol : String)
  | onOrderFilled (id : OrderId) (fillPriceCents quantity : ℕ)

/-- What anyone else can do to the books. -/
inductive BookCall where
  | openBook (a : OptionAddr)
  | limit (a : OptionAddr) (side : Side) (price quantity : ℕ) (tif : TimeInForce)
  | market (a : OptionAddr) (side : Side) (quantity : ℕ)
  | cancel (a : OptionAddr) (id : OrderId)
  | tick (ms : ℕ)

def BookCall.apply {B : Type} [Upstream B] (x : Exchange B) : BookCall → Exchange B
  | .openBook a => x.openBook a
  | .limit a side price q tif =>
    (x.newOrderId.2.addLimitOrderWithTif a x.newOrderId.1 side price q tif).2
  | .market a side q => (x.newOrderId.2.submitMarketOrder a x.newOrderId.1 q side).2
  | .cancel a i => (x.cancelOrder a i).2
  | .tick ms => x.tick ms

def Operation.apply {B F : Type} [Upstream B] [F64 F] (d : Desk B F) : Operation F → Desk B F
  | .updatePrice symbol p => d.updatePrice symbol p
  | .setEnabled on => d.setEnabled on
  | .setSymbolEnabled symbol on => d.setSymbolEnabled symbol on
  | .setSpreadMultiplier v => d.setSpreadMultiplier v
  | .setSizeScalar v => d.setSizeScalar v
  | .setDirectionalSkew v => d.setDirectionalSkew v
  | .cancelAllOrders => d.cancelAllOrders
  | .cancelSymbolOrders symbol => d.cancelSymbolOrders symbol
  | .onOrderFilled i p q => d.onOrderFilled i p q

inductive Step (F : Type) where
  | engine (op : Operation F)
  | books (call : BookCall)

/-- A desk, and how much of each order was reported filled so far. -/
structure Session (B F : Type) where
  desk : Desk B F
  reported : OrderId → ℕ

namespace Session
variable {B F : Type}

/-- A fresh engine over any set of books. -/
structure Start [F64 F] [Upstream B] (s : Session B F) : Prop where
  engine : ∃ quoter, s.desk.engine = .new quoter
  quoted : s.desk.quoted = []
  reported : s.reported = fun _ => 0
  fresh : s.desk.market.Fresh

variable [Upstream B] [F64 F]

def step (s : Session B F) : Step F → Session B F
  | .engine op =>
    { desk := op.apply s.desk
      reported := match op with
        | .onOrderFilled i _ q => Function.update s.reported i (s.reported i + q)
        | _ => s.reported }
  | .books call => { s with desk := { s.desk with market := call.apply s.desk.market } }

/-- Only executions that happened are reported, each at most once. -/
def Honest (s : Session B F) : Step F → Prop
  | .engine (.onOrderFilled i _ q) => s.reported i + q ≤ s.desk.market.executed i
  | _ => True

end Session

namespace Desk
variable {B F : Type} [Upstream B] [LawfulUpstream B] {d : Desk B F}
  {reported : OrderId → ℕ}

theorem Sound.bookCall (h : d.Sound reported) (call : BookCall) :
    Sound { d with market := call.apply d.market } reported := by
  have hnew := h.newOrderId
  cases call with
  | openBook a => exact h.quiet (openBook_quiet _ a) (openBook_grows _ a)
  | limit a side p q tif =>
    cases hc : d.market.newOrderId.2.addLimitOrderWithTif a d.market.newOrderId.1 side p q tif with
    | mk res x =>
      have hg : Grows d.market x := .of_eq (congrArg (·.2.toCatalog) hc).symm
      simp only [BookCall.apply, hc]
      cases res with
      | error e => exact h.quiet ((newOrderId_quiet _).trans (addLimit_error hc)) hg
      | ok r =>
        have habs : ∀ c, d.market.newOrderId.2.getOrder c d.market.newOrderId.1 = none := fun c =>
          h.fresh.absent le_rfl
        exact hnew.filled (Nat.lt_succ_self _) h.unissued habs (addLimit_ok hc (habs a)).1 hg
  | market a side q =>
    cases hc : d.market.newOrderId.2.submitMarketOrder a d.market.newOrderId.1 q side with
    | mk res x =>
      have hg : Grows d.market x := .of_eq (congrArg (·.2.toCatalog) hc).symm
      simp only [BookCall.apply, hc]
      cases res with
      | error e => exact h.quiet ((newOrderId_quiet _).trans (market_error hc)) hg
      | ok r =>
        have habs : ∀ c, d.market.newOrderId.2.getOrder c d.market.newOrderId.1 = none := fun c =>
          h.fresh.absent le_rfl
        exact hnew.filled (Nat.lt_succ_self _) h.unissued habs (market_ok hc (habs a)) hg
  | cancel a i => exact h.cancelOnBook a i
  | tick ms => exact h.shrunk (tick_shrunk _ ms) (.of_eq rfl)

theorem Tidy.setParameter [F64 F] (h : d.Tidy reported) (hc : CancelRemoves B) (v : F)
    (config : MarketMakerConfig F) : (d.setParameter v config).Tidy reported := by
  unfold Desk.setParameter
  split_ifs
  · have hw : Tidy { d with
        engine := (d.writeConfig config).engine.broadcastConfigChange } reported := h.congr rfl rfl
    exact (hw.requoteAll hc).tidy
  · exact h

theorem Tidy.setEnabled (h : d.Tidy reported) (hc : CancelRemoves B) (on : Bool) :
    (d.setEnabled on).Tidy reported := by
  have hw : Tidy { d with engine := d.engine.writeEnabled on } reported := h.congr rfl rfl
  unfold Desk.setEnabled
  cases on with
  | true => exact hw.congr rfl rfl
  | false => exact (hw.cancelAllOrders hc).1.congr rfl rfl

theorem Tidy.setSymbolEnabled (h : d.Tidy reported) (hc : CancelRemoves B) (symbol : String)
    (on : Bool) : (d.setSymbolEnabled symbol on).Tidy reported := by
  unfold Desk.setSymbolEnabled
  dsimp only
  cases on with
  | true => exact h.congr rfl rfl
  | false =>
    apply Tidy.cancelSymbolOrders _ hc symbol |>.1
    exact h.congr rfl rfl

theorem Tidy.updatePrice [F64 F] (h : d.Tidy reported) (hc : CancelRemoves B) (symbol : String)
    (p : ℕ) : (d.updatePrice symbol p).Tidy reported := by
  have hp : Tidy { d with
      engine := (d.engine.insertPrice symbol p).send (.priceUpdated symbol p) } reported :=
    h.congr rfl rfl
  unfold Desk.updatePrice
  dsimp only
  split_ifs
  · exact (hp.requoteSymbol hc symbol).tidy
  · exact hp

end Desk

namespace Session
variable {B F : Type} [Upstream B] [LawfulUpstream B] [F64 F] {s : Session B F}

def Tidy (s : Session B F) : Prop := s.desk.Tidy s.reported

omit [LawfulUpstream B] in
theorem Start.tidy (h : s.Start) : s.Tidy := by
  obtain ⟨⟨quoter, he⟩, hq, hr, hf⟩ := h
  have hnone : ∀ i, s.desk.engine.activeOrders.lookup i = none := by
    intro i
    rw [he]
    rfl
  refine ⟨⟨hf, ?_, ?_, ?_, ?_, ?_, ?_⟩, ?_⟩
  · simp [hq]
  · simp [hq]
  · intro i o ho
    rw [hnone] at ho
    cases ho
  · intro i o ho
    rw [hnone] at ho
    cases ho
  · simp [hq]
  · simp [hr]
  · rw [he]
    exact MarketMakerEngine.new_indexed quoter

theorem Tidy.step (h : s.Tidy) (hc : CancelRemoves B) (i : Step F) (hok : s.Honest i) :
    (s.step i).Tidy := by
  have hd : s.desk.Tidy s.reported := h
  cases i with
  | books call => exact ⟨hd.toSound.bookCall call, hd.indexed⟩
  | engine op =>
    cases op with
    | updatePrice symbol p => exact hd.updatePrice hc symbol p
    | setEnabled on => exact hd.setEnabled hc on
    | setSymbolEnabled symbol on => exact hd.setSymbolEnabled hc symbol on
    | setSpreadMultiplier v => exact hd.setParameter hc v _
    | setSizeScalar v => exact hd.setParameter hc v _
    | setDirectionalSkew v => exact hd.setParameter hc v _
    | cancelAllOrders => exact (hd.cancelAllOrders hc).1
    | cancelSymbolOrders symbol => exact (hd.cancelSymbolOrders hc symbol).1
    | onOrderFilled i p q => exact hd.onOrderFilled i p q hok

theorem reaches_tidy (hc : CancelRemoves B) (h : Reaches Start step Honest s) : s.Tidy := by
  apply Reaches.invariant (P := Tidy) _ _ h
  · exact fun s hs => hs.tidy
  · exact fun s i hs hok => hs.step hc i hok

omit [F64 F] in
/-- An order the engine placed that still rests is tracked. -/
theorem Tidy.resting_tracked (h : s.Tidy) {a : OptionAddr} {i : OrderId} {o : RestingOrder}
    (hi : i ∈ s.desk.quoted) (ho : s.desk.market.getOrder a i = some o) :
    (s.desk.engine.activeOrders.lookup i).isSome = true := by
  have hd : s.desk.Tidy s.reported := h
  apply hd.tracked i hi
  rw [(hd.homed i hi).remaining_eq ho]
  exact LawfulUpstream.getOrder_pos _ _ _ ho

/-- The index names exactly the tracked orders, no entry is empty, an instrument has at most one
bid and one ask, every resting order of the engine is tracked, and a requote of one instrument
touches no other. -/
theorem quotes_never_accumulate (hc : CancelRemoves B) (h : Reaches Start step Honest s) :
    (∀ key leg i, s.desk.engine.slots key leg = some i ↔
      ∃ o, s.desk.engine.activeOrders.lookup i = some o ∧
        InstrumentKey.fromOrder o = key ∧ legSlot o.isBuy = leg) ∧
    (∀ key slots, s.desk.engine.instrumentOrders.lookup key = some slots →
      slots 0 ≠ none ∨ slots 1 ≠ none) ∧
    (∀ i j o o', s.desk.engine.activeOrders.lookup i = some o →
      s.desk.engine.activeOrders.lookup j = some o' →
      InstrumentKey.fromOrder o = .fromOrder o' → o.isBuy = o'.isBuy → i = j) ∧
    (∀ a i r, i ∈ s.desk.quoted → s.desk.market.getOrder a i = some r →
      (s.desk.engine.activeOrders.lookup i).isSome = true) ∧
    ∀ (ctx : RequoteContext F) strike style,
      let key := InstrumentKey.new ⟨ctx.symbol, ctx.expiration, strike, style⟩
      let d' := s.desk.updateQuote ctx strike style
      (∀ k, k ≠ key → d'.engine.instrumentOrders.lookup k =
        s.desk.engine.instrumentOrders.lookup k) ∧
      ∀ j o, InstrumentKey.fromOrder o ≠ key → (d'.engine.activeOrders.lookup j = some o ↔
        s.desk.engine.activeOrders.lookup j = some o) := by
  have ht := reaches_tidy hc h
  have hd : s.desk.Tidy s.reported := ht
  refine ⟨?_, ?_, ?_, ?_, ?_⟩
  · intro key leg i
    have ha := hd.indexed.agrees (key, leg) i
    simp only [position, Prod.mk.injEq] at ha
    exact ha
  · intro key slots hk
    have ho := hd.indexed.occupied key slots hk
    by_contra hne
    rw [not_or, not_not, not_not] at hne
    simp [Slots.isEmpty, hne.1, hne.2] at ho
  · intro i j o o' hi hj hkey hleg
    apply hd.indexed.agrees.injective hi hj
    rw [position, position, hkey, hleg]
  · intro a i r hi hr
    exact ht.resting_tracked hi hr
  · intro ctx strike style
    have hu := (hd.updateQuote hc ctx strike style).elsewhere
    exact ⟨hu.index, hu.active⟩

end Session

section Reference

/-- A quoter whose pricer returns the same value for every option. -/
def flatQuoter (value : ℚ) : Quoter ℚ := .standard ⟨fun _ _ _ _ _ _ => value⟩

def Session.reference : Session ReferenceBook ℚ := ⟨.new (flatQuoter 5), fun _ => 0⟩

theorem Session.reference_start : Session.reference.Start where
  engine := ⟨_, rfl⟩
  quoted := rfl
  reported := rfl
  fresh := init_fresh

instance {B F : Type} [Upstream B] (s : Session B F) (i : Step F) : Decidable (s.Honest i) := by
  unfold Session.Honest
  split <;> infer_instance

def btcCall : OptionAddr := ⟨"BTC", .days 30, 10000, .call⟩

/-- A quote, a user buying 3 of the ask, and the fill reported. -/
def quotedSteps : List (Step ℚ) :=
  [.books (.openBook btcCall), .engine (.updatePrice "BTC" 10000),
    .books (.market btcCall .buy 3), .engine (.onOrderFilled 1 502 3)]

theorem quotes_never_accumulate_ask :
    (quotedSteps.foldl Session.step Session.reference).desk.engine.slots (.new btcCall)
      (legSlot false) = some 1 ∧
    ∃ o, (quotedSteps.foldl Session.step Session.reference).desk.engine.activeOrders.lookup 1 =
      some o ∧ InstrumentKey.fromOrder o = .new btcCall ∧ legSlot o.isBuy = legSlot false := by
  have hrun : Reaches Session.Start Session.step Session.Honest
      (quotedSteps.foldl Session.step Session.reference) :=
    (Reaches.start Session.reference_start).run (by decide +kernel)
  have hslot : (quotedSteps.foldl Session.step Session.reference).desk.engine.slots (.new btcCall)
      (legSlot false) = some 1 := by decide +kernel
  exact ⟨hslot, ((Session.quotes_never_accumulate ReferenceBook.cancelRemoves hrun).1 _ _ _).mp
    hslot⟩

end Reference
end MarketMaker
end OptionChainBackend
