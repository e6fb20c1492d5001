import OptionChainBackend.MarketMaker.Coverage

/-!
The engine in step with its books: everything that executed against a tracked order is reported,
so what is tracked is what rests. Each change of the books or of the engine is one lemma.
-/
namespace OptionChainBackend
namespace MarketMaker
open Foundation Upstream Exchange

namespace Desk
variable {B F : Type} [Upstream B] {d : Desk B F} {x : Exchange B} {a : OptionAddr}
  {i id : OrderId} {o : ActiveOrderInfo} {reported : OrderId → ℕ}

/-- Everything that executed counts as reported. -/
structure InStep (d : Desk B F) : Prop extends Tidy d d.market.executed where
  covers : d.Covered d.market.executed

/-- What the engine tracks is what rests of its orders. -/
structure AgreesWithBooks (d : Desk B F) : Prop where
  tracked : ∀ i o, d.engine.activeOrders.lookup i = some o →
    i ∈ d.quoted ∧ d.market.hasBook o.addr = true ∧
      ∃ r, d.market.getOrder o.addr i = some r ∧ r.visibleQuantity = o.quantity
  resting : ∀ a i r, i ∈ d.quoted → d.market.getOrder a i = some r →
    ∃ o, d.engine.activeOrders.lookup i = some o ∧ o.addr = a

theorem InStep.quantity (h : d.InStep) (ho : d.engine.activeOrders.lookup i = some o) :
    d.market.remaining i = o.quantity := by
  have hbound := h.bound ho
  have hcov := h.covers.covered ho
  omega

theorem InStep.agrees [LawfulUpstream B] (h : d.InStep) : d.AgreesWithBooks where
  tracked i o ho := by
    obtain ⟨hq, hhome, hb⟩ := h.known ho
    have hrem := h.quantity ho
    have hpos := h.covers.positive ho
    rw [remaining_of_home hhome] at hrem
    cases hr : d.market.getOrder o.addr i with
    | none =>
      rw [hr] at hrem
      exact absurd hrem (Nat.ne_of_lt hpos)
    | some r =>
      rw [hr] at hrem
      exact ⟨hq, hb, r, rfl, hrem⟩
  resting a i r hi hr := by
    have hhome := h.homed i hi
    have hpos := LawfulUpstream.getOrder_pos _ _ _ hr
    have htracked := h.toTidy.tracked i hi (by rwa [hhome.remaining_eq hr])
    obtain ⟨o, ho⟩ := Option.isSome_iff_exists.mp htracked
    exact ⟨o, ho, Option.some.inj ((h.known ho).2.1.symm.trans (hhome hr))⟩

/-- Reports that account for everything the tracked orders executed. -/
theorem InStep.of_reported (ht : d.Tidy reported) (h : d.Covered reported)
    (hrep : ∀ {i o}, d.engine.activeOrders.lookup i = some o → reported i = d.market.executed i) :
    d.InStep where
  fresh := ht.fresh
  homed := ht.homed
  placed := ht.placed
  known := ht.known
  bound ho := by
    have hbound := ht.bound ho
    rwa [hrep ho] at hbound
  tracked := ht.tracked
  reported_le _ := le_rfl
  indexed := ht.indexed
  covers := by
    constructor
    · intro i o ho
      have hcov := h.covered ho
      rwa [hrep ho] at hcov
    · exact h.positive
    · exact h.lasting

theorem InStep.of_executed (reported : OrderId → ℕ) (ht : d.Tidy reported) (h : d.Covered reported)
    (hrep : reported = d.market.executed) : d.InStep := by
  subst hrep
  exact ⟨ht, h⟩

theorem InStep.quiet (h : d.InStep) (hq : Quiet d.market x) (hg : Grows d.market x) :
    InStep { d with market := x } := by
  apply InStep.of_executed d.market.executed
  · exact ⟨h.toSound.quiet hq hg, h.indexed⟩
  · exact h.covers.quiet hq
  · funext i
    exact (hq.executed i).symm

/-- Somebody cancelled an order of their own. -/
theorem InStep.removed (h : d.InStep) (hr : Removed d.market x a id) (hid : id ∉ d.quoted)
    (hg : Grows d.market x) : InStep { d with market := x } := by
  apply InStep.of_executed d.market.executed
  · exact ⟨h.toSound.shrunk hr.shrunk hg, h.indexed⟩
  · apply h.covers.removed hr
    cases ho : d.engine.activeOrders.lookup id with
    | none => rfl
    | some o => exact absurd (h.known ho).1 hid
  · funext i
    exact (hr.shrunk.executed i).symm

/-- Orders left the books, none of them tracked. -/
theorem InStep.shrunk (h : d.InStep) (hs : Shrunk d.market x)
    (hrem : ∀ {i o}, d.engine.activeOrders.lookup i = some o →
      x.remaining i = d.market.remaining i ∧ x.hasBook o.addr = true) :
    InStep { d with market := x } := by
  apply InStep.of_executed d.market.executed
  · refine ⟨⟨h.fresh.shrunk hs, fun i hi => (h.homed i hi).shrunk hs, ?_, ?_, ?_, ?_, ?_⟩,
      h.indexed⟩
    · intro i hi
      rw [hs.home]
      exact h.placed i hi
    · intro i o ho
      obtain ⟨hq, hhome, -⟩ := h.known ho
      rw [hs.home]
      exact ⟨hq, hhome, (hrem ho).2⟩
    · intro i o ho
      have hbound := h.bound ho
      have hexec := hs.executed i
      have hle := hs.remaining_le i
      dsimp only
      omega
    · intro i hi hpos
      exact h.toTidy.tracked i hi (Nat.lt_of_lt_of_le hpos (hs.remaining_le i))
    · intro i
      exact (hs.executed i).ge
  · apply h.covers.market
    · intro i o ho
      have hexec := hs.executed i
      have hkeep := (hrem ho).1
      omega
    · intro c i r _ hr
      exact ⟨r, hs.rested hr, rfl⟩
  · funext i
    exact (hs.executed i).symm

theorem InStep.tick [LawfulUpstream B] (h : d.InStep) (ms : ℕ) :
    InStep { d with market := d.market.tick ms } := by
  apply h.shrunk (tick_shrunk _ ms)
  intro i o ho
  obtain ⟨hq, hhome, hb⟩ := h.known ho
  refine ⟨?_, hb⟩
  have hget : (d.market.tick ms).getOrder o.addr i = d.market.getOrder o.addr i := by
    rcases LawfulUpstream.lapse_getOrder (d.market.now + ms) (d.market.books o.addr) i with
      hsame | ⟨-, r, t, hr, ht, -⟩
    · exact hsame
    · rw [h.covers.lasting hq hr] at ht
      cases ht
  rw [remaining_of_home hhome, remaining_of_home (x := d.market.tick ms) hhome, hget]

/-- The underlying has none of the tracked orders. -/
theorem InStep.remove [LawfulUpstream B] (h : d.InStep) (underlying : String)
    (hno : ∀ i o, d.engine.activeOrders.lookup i = some o → o.symbol ≠ underlying) :
    InStep { d with market := d.market.remove underlying } := by
  apply h.shrunk (remove_shrunk _ underlying)
  intro i o ho
  obtain ⟨hq, hhome, hb⟩ := h.known ho
  have hne : o.addr.underlying ≠ underlying := hno i o ho
  constructor
  · have hget : (d.market.remove underlying).getOrder o.addr i = d.market.getOrder o.addr i := by
      show Upstream.getOrder (if o.addr.underlying = underlying then Upstream.empty
        else d.market.books o.addr) i = _
      rw [if_neg hne]
      rfl
    rw [remaining_of_home hhome, remaining_of_home (x := d.market.remove underlying) hhome, hget]
  · simp only [Catalog.hasBook, Catalog.get, Catalog.getExpiration, Catalog.getStrike,
      Exchange.remove, Bool.and_eq_true, decide_eq_true_eq, Function.update_of_ne hne,
      List.mem_filter] at hb ⊢
    exact ⟨⟨⟨hb.1.1, by simpa using hne⟩, hb.1.2⟩, hb.2⟩

/-- A book came back from a snapshot that has the engine's orders as they rest now. -/
theorem InStep.restored (h : d.InStep) {snapshot : OrderBookSnapshot}
    (hr : Restored d.market x a snapshot) (hids : ∀ o ∈ snapshot.orders, o.id < d.market.nextOrderId)
    (hsame : ∀ i ∈ d.quoted, snapshot.orders.find? (·.id = i) = d.market.getOrder a i) :
    InStep { d with market := x } := by
  have hget : ∀ {c i}, i ∈ d.quoted → x.getOrder c i = d.market.getOrder c i := by
    intro c i hi
    rw [hr.getOrder]
    split_ifs with hc
    · rw [hc]
      exact hsame i hi
    · rfl
  have hrem : ∀ {i}, i ∈ d.quoted → x.remaining i = d.market.remaining i := by
    intro i hi
    obtain ⟨c, hc⟩ := h.placed i hi
    have hc' : x.home i = some c := by rwa [hr.home]
    rw [remaining_of_home hc, remaining_of_home hc', hget hi]
  have hexec : ∀ i, x.executed i = d.market.executed i := by
    intro i
    simp only [Exchange.executed, hr.tape]
  apply InStep.of_executed d.market.executed
  · refine ⟨h.toSound.market (hr.ages h.fresh hids).fresh ?_ ?_ hr.grows ?_ ?_ ?_, h.indexed⟩
    · intro i hi c r hrest
      rw [hget hi] at hrest
      rw [hr.home]
      exact h.homed i hi hrest
    · intro i _
      rw [hr.home]
    · intro i hi
      exact (hrem hi).le
    · intro i hi
      rw [hrem hi, hexec]
    · intro i
      exact (hexec i).ge
  · apply h.covers.market
    · intro i o ho
      rw [hrem (h.known ho).1, hexec]
    · intro c i r hi hrest
      rw [hget hi] at hrest
      exact ⟨r, hrest, rfl⟩
  · funext i
    exact (hexec i).symm

/-- A report of nothing, or of an order that is not tracked, changes nothing. -/
theorem onOrderFilled_idle {price q : ℕ} (h : q = 0 ∨ d.engine.activeOrders.lookup i = none) :
    d.onOrderFilled i price q = d := by
  unfold Desk.onOrderFilled
  rcases d.engine.onOrderFilled_cases (showOrderId B) i price q with
    ⟨-, he⟩ | ⟨o, events, hq, ho, -⟩
  · rw [he]
  · rw [h.resolve_left hq] at ho
    cases ho

section Submissions
variable {side : Side} {limit : Option ℕ} {q : ℕ} {r : MatchResult} {left : Option RestingOrder}

/-- A submission by someone else, with what it executed not reported yet. -/
theorem InStep.filled (h : d.InStep) (hs : Submitted d.market x a side limit q r left) :
    Tidy { d with market := x } d.market.executed ∧
      Covered { d with market := x } d.market.executed ∧
      ∀ i ∈ d.quoted, x.executed i = d.market.executed i + makerFilled r.trades i := by
  have habs : ∀ c, d.market.newOrderId.2.getOrder c d.market.nextOrderId = none := fun c =>
    h.fresh.absent le_rfl
  have hcover : Covered { d with market := d.market.newOrderId.2 } d.market.executed :=
    h.covers.quiet (newOrderId_quiet _)
  constructor
  · exact ⟨h.newOrderId.filled (Nat.lt_succ_self _) h.unissued habs hs.filled hs.grows, h.indexed⟩
  constructor
  · exact hcover.filled h.newOrderId h.unissued hs.filled
  · intro i hi
    have hlt := h.issued hi
    exact hs.filled.executed_ne (Nat.ne_of_lt hlt)

/-- A submission that trades with no order of the engine needs no report. -/
theorem InStep.unmet (h : d.InStep) (hs : Submitted d.market x a side limit q r left)
    (hfree : ∀ t ∈ r.trades, t.makerOrderId ∉ d.quoted) : InStep { d with market := x } := by
  obtain ⟨ht, hc, hexec⟩ := h.filled hs
  apply InStep.of_reported ht hc
  intro i o ho
  have hi : i ∈ d.quoted := (h.known ho).1
  have hnone : makerFilled r.trades i = 0 := by
    apply makerFilled_eq_zero
    intro t hmem he
    exact hfree t hmem (he ▸ hi)
  rw [hexec i hi, hnone, Nat.add_zero]

/-- One trade of a match, as `record_fills` reports it. -/
def reportTrade (d : Desk B F) (t : Trade) : Desk B F :=
  if t.price < 2 ^ 64 then d.onOrderFilled t.makerOrderId t.price t.quantity else d

/-- Reporting a row of trades: what was executed unreported is reported now. -/
theorem Covered.reports (trades : List Trade) (ht : d.Tidy reported) (hc : d.Covered reported)
    (hheard : ∀ t ∈ trades, t.makerOrderId ∈ d.quoted → t.price < 2 ^ 64)
    (hle : ∀ i ∈ d.quoted, reported i + makerFilled trades i ≤ d.market.executed i) :
    let d' := trades.foldl reportTrade d
    d'.market = d.market ∧ d'.quoted = d.quoted ∧ ∃ reported', d'.Tidy reported' ∧
      d'.Covered reported' ∧ ∀ i ∈ d.quoted, reported' i = reported i + makerFilled trades i := by
  induction trades generalizing d reported with
  | nil => exact ⟨rfl, rfl, reported, ht, hc, fun i _ => by simp⟩
  | cons t trades ih =>
    have hrest : ∀ u ∈ trades, u.makerOrderId ∈ d.quoted → u.price < 2 ^ 64 := fun u hu =>
      hheard u (List.mem_cons_of_mem t hu)
    by_cases hq : t.makerOrderId ∈ d.quoted
    · let m := t.makerOrderId
      let reported1 := Function.update reported m (reported m + t.quantity)
      have hreport : d.reportTrade t = d.onOrderFilled m t.price t.quantity :=
        if_pos (hheard t List.mem_cons_self hq)
      have hrep : ∀ i, reported1 i + makerFilled trades i =
          reported i + makerFilled (t :: trades) i := by
        intro i
        show Function.update reported m (reported m + t.quantity) i + _ = _
        rw [makerFilled_cons, Function.update_apply]
        by_cases hi : i = m
        · rw [if_pos hi, if_pos hi.symm, hi]
          omega
        · rw [if_neg hi, if_neg (Ne.symm hi)]
          omega
      have hhead := hle m hq
      rw [makerFilled_cons, if_pos rfl] at hhead
      obtain ⟨hm', hq', reported', ht', hc', hr'⟩ :=
        ih (ht.onOrderFilled m t.price t.quantity (by omega))
          (hc.onOrderFilled m t.price t.quantity) hrest (fun i hi => (hrep i).trans_le (hle i hi))
      rw [List.foldl_cons, hreport]
      exact ⟨hm', hq', reported', ht', hc', fun i hi => (hr' i hi).trans (hrep i)⟩
    · have hskip : d.reportTrade t = d := by
        unfold reportTrade
        split_ifs
        · apply onOrderFilled_idle
          right
          cases ho : d.engine.activeOrders.lookup t.makerOrderId with
          | none => rfl
          | some o => exact absurd (ht.known ho).1 hq
        · rfl
      have hother : ∀ i ∈ d.quoted, makerFilled (t :: trades) i = makerFilled trades i := by
        intro i hi
        have hne : t.makerOrderId ≠ i := fun he => hq (he ▸ hi)
        rw [makerFilled_cons, if_neg hne, Nat.zero_add]
      obtain ⟨hm', hq', reported', ht', hc', hr'⟩ := ih ht hc hrest (by
        intro i hi
        rw [← hother i hi]
        exact hle i hi)
      rw [List.foldl_cons, hskip]
      refine ⟨hm', hq', reported', ht', hc', fun i hi => ?_⟩
      rw [hr' i hi, hother i hi]

/-- A submission by someone else whose trades with the engine's orders are all reported. -/
theorem InStep.reports (h : d.InStep) (hs : Submitted d.market x a side limit q r left)
    (hheard : ∀ t ∈ r.trades, t.makerOrderId ∈ d.quoted → t.price < 2 ^ 64) :
    (r.trades.foldl reportTrade { d with market := x }).InStep := by
  obtain ⟨ht, hc, hexec⟩ := h.filled hs
  obtain ⟨hm, hq, reported', ht', hc', hr'⟩ :=
    Covered.reports r.trades ht hc hheard fun i hi => (hexec i hi).ge
  apply InStep.of_reported ht' hc'
  intro i o ho
  have hi : i ∈ d.quoted := by
    have hknown := (ht'.known ho).1
    rwa [hq] at hknown
  rw [hm, hr' i hi, hexec i hi]

end Submissions
section Operations
variable [F64 F]

/-- A new parameter value is stored, and there is room for every quote that it leads to. -/
def ParameterClears (d : Desk B F) (value : F) (config : MarketMakerConfig F) : Prop :=
  F64.isFinite value = true → (d.writeConfig config).AllClear

/-- There is room for every quote the operation places, and it reports no fill of its own. -/
def OperationClears (d : Desk B F) : Operation F → Prop
  | .updatePrice symbol priceCents =>
    (d.engine.isEnabled && d.engine.isSymbolEnabled symbol) = true →
      SymbolClears { d with engine := d.engine.insertPrice symbol priceCents } symbol
  | .setSpreadMultiplier v => d.ParameterClears v (d.engine.config.withSpreadMultiplier v)
  | .setSizeScalar v => d.ParameterClears v (d.engine.config.withSizeScalar v)
  | .setDirectionalSkew v => d.ParameterClears v (d.engine.config.withDirectionalSkew v)
  | .onOrderFilled i _ q => q = 0 ∨ d.engine.activeOrders.lookup i = none
  | _ => True

omit [F64 F] in
/-- Changes of the engine that leave its orders as they are. -/
theorem InStep.congr (h : d.InStep) {e : MarketMakerEngine F}
    (ha : e.activeOrders = d.engine.activeOrders)
    (hi : e.instrumentOrders = d.engine.instrumentOrders) : InStep { d with engine := e } := by
  apply InStep.of_executed d.market.executed (h.toTidy.congr ha hi) _ rfl
  apply h.covers.thin
  intro i o ho
  rwa [← ha]

omit [F64 F] in
theorem InStep.requoting {d' : Desk B F} {clear : Prop}
    (hr : Requoting d d' d.market.executed clear) (hok : clear) : d'.InStep := by
  apply InStep.of_executed d.market.executed hr.tidy hr.covered
  funext i
  exact ((hr.still hok).executed i).symm

variable [LawfulUpstream B]

omit [F64 F] in
theorem InStep.cancelOrders (h : d.InStep) (hc : CancelRemoves B) (ids : List OrderId) :
    (ids.foldl Desk.cancelOrder d).InStep := by
  apply List.foldlRecOn (motive := InStep)
  · exact h
  · intro d' hd i _
    apply InStep.of_executed d'.market.executed (hd.toTidy.cancelOrder hc i)
      (hd.covers.cancelOrder i)
    funext j
    unfold Desk.cancelOrder
    cases d'.engine.activeOrders.lookup i with
    | none => rfl
    | some o =>
      dsimp only
      split_ifs
      · exact ((d'.market.cancelOrder_shrunk o.addr i).executed j).symm
      · rfl

omit [F64 F] in
theorem InStep.cancelAllOrders (h : d.InStep) (hc : CancelRemoves B) :
    d.cancelAllOrders.InStep := by
  have hall := h.cancelOrders hc d.engine.activeOrders.keys
  obtain ⟨ht, -, hnone⟩ := h.toTidy.cancelAllOrders hc
  have hno : ∀ {i o}, d.cancelAllOrders.engine.activeOrders.lookup i ≠ some o := by
    intro i o ho
    rw [hnone i] at ho
    cases ho
  apply InStep.of_reported ht
  · constructor
    · exact fun ho => absurd ho hno
    · exact fun ho => absurd ho hno
    · exact fun hi hr => hall.covers.lasting hi hr
  · exact fun ho => absurd ho hno

theorem InStep.setParameter (h : d.InStep) (hc : CancelRemoves B) {v : F}
    {config : MarketMakerConfig F} (hok : d.ParameterClears v config) :
    (d.setParameter v config).InStep := by
  unfold Desk.setParameter
  split_ifs with hv
  · have hw : InStep { d with engine := (d.writeConfig config).engine.broadcastConfigChange } :=
      h.congr rfl rfl
    exact .requoting (requoteAll_requoting hw.toTidy hw.covers hc) (hok hv)
  · exact h

/-- Every operation that finds room for its quotes keeps the engine in step. -/
theorem InStep.operation (h : d.InStep) (hc : CancelRemoves B) (op : Operation F)
    (hok : d.OperationClears op) : (op.apply d).InStep := by
  cases op with
  | updatePrice symbol p =>
    have hp : InStep { d with
        engine := (d.engine.insertPrice symbol p).send (.priceUpdated symbol p) } :=
      h.congr rfl rfl
    show (d.updatePrice symbol p).InStep
    unfold Desk.updatePrice
    dsimp only
    split_ifs with hon
    · exact .requoting (requoteSymbol_requoting hp.toTidy hp.covers hc symbol) (hok hon)
    · exact hp
  | setEnabled on =>
    have hw : InStep { d with engine := d.engine.writeEnabled on } := h.congr rfl rfl
    show (d.setEnabled on).InStep
    unfold Desk.setEnabled
    cases on with
    | true => exact hw.congr rfl rfl
    | false => exact (hw.cancelAllOrders hc).congr rfl rfl
  | setSymbolEnabled symbol on =>
    show (d.setSymbolEnabled symbol on).InStep
    unfold Desk.setSymbolEnabled
    dsimp only
    cases on with
    | true => exact h.congr rfl rfl
    | false =>
      apply InStep.cancelOrders _ hc
      exact h.congr rfl rfl
  | setSpreadMultiplier v => exact h.setParameter hc hok
  | setSizeScalar v => exact h.setParameter hc hok
  | setDirectionalSkew v => exact h.setParameter hc hok
  | cancelAllOrders => exact h.cancelAllOrders hc
  | cancelSymbolOrders symbol => exact h.cancelOrders hc _
  | onOrderFilled i p q =>
    show (d.onOrderFilled i p q).InStep
    rw [onOrderFilled_idle hok]
    exact h

end Operations
end Desk
end MarketMaker
end OptionChainBackend
