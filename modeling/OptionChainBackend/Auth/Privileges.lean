import OptionChainBackend.Auth.Routes
import OptionChainBackend.MarketMaker.Shutdown

/-!
Privileged effects need Admin. What a request without it can do leaves the market maker's
configuration and the stored snapshots alone and removes no underlying; what it takes to reach a
handler is read off the route table.
-/
namespace OptionChainBackend
open Foundation Foundation.Routing Upstream MarketMaker Auth

namespace AppState
variable {B F : Type} [Upstream B] {s s' s'' : AppState B F}

/-- What no request without Admin changes. -/
structure Unprivileged (s s' : AppState B F) : Prop where
  config : s'.engine.config = s.engine.config
  snapshots : s'.snapshots = s.snapshots
  underlyings : s.market.underlyings ⊆ s'.market.underlyings

namespace Unprivileged

omit [Upstream B] in
theorem refl (s : AppState B F) : Unprivileged s s := ⟨rfl, rfl, fun _ h => h⟩

omit [Upstream B] in
theorem trans (h : Unprivileged s s') (h' : Unprivileged s' s'') : Unprivileged s s'' where
  config := h'.config.trans h.config
  snapshots := h'.snapshots.trans h.snapshots
  underlyings := List.Subset.trans h.underlyings h'.underlyings

omit [Upstream B] in
/-- A row of parts keeps what each of them keeps. -/
theorem foldl {ι σ : Type} (state : σ → AppState B F) (f : σ → ι → σ)
    (hf : ∀ acc i, Unprivileged (state acc) (state (f acc i))) (is : List ι) (acc : σ) :
    Unprivileged (state acc) (state (is.foldl f acc)) := by
  induction is generalizing acc with
  | nil => exact refl _
  | cons i is ih => exact (hf acc i).trans (ih (f acc i))

end Unprivileged

section Catalog
variable (x : Exchange B) (a : OptionAddr)

omit [Upstream B] in
theorem getOrCreate_underlyings (u : String) : x.underlyings ⊆ (x.getOrCreate u).underlyings := by
  unfold Exchange.getOrCreate
  split_ifs
  · exact fun _ h => h
  · exact List.subset_append_left _ _

theorem getOrCreateExpiration_underlyings (u : String) (e : ExpirationDate) :
    (x.getOrCreateExpiration u e).underlyings = x.underlyings := by
  unfold Exchange.getOrCreateExpiration
  split_ifs <;> rfl

theorem getOrCreateStrike_underlyings (u : String) (e : ExpirationDate) (strike : ℕ) :
    (x.getOrCreateStrike u e strike).underlyings = x.underlyings := by
  unfold Exchange.getOrCreateStrike
  split_ifs <;> rfl

theorem openBook_underlyings : x.underlyings ⊆ (x.openBook a).underlyings := by
  unfold Exchange.openBook
  rw [getOrCreateStrike_underlyings, getOrCreateExpiration_underlyings]
  exact getOrCreate_underlyings x _

end Catalog

section Parts
variable {x : Exchange B} {a : OptionAddr} {id : OrderId}

omit [Upstream B] in
theorem withMarket_unprivileged (h : s.market.underlyings ⊆ x.underlyings) :
    Unprivileged s (s.withMarket x) := ⟨rfl, rfl, h⟩

omit [Upstream B] in
theorem withMarket_same (h : x.underlyings = s.market.underlyings) :
    Unprivileged s (s.withMarket x) :=
  withMarket_unprivileged (h ▸ List.Subset.refl _)

omit [Upstream B] in
theorem track_unprivileged (info : OrderInfo) : Unprivileged s (s.track info) :=
  ⟨rfl, rfl, fun _ h => h⟩

omit [Upstream B] in
theorem untrack_unprivileged (key : String) : Unprivileged s (s.untrack key) :=
  ⟨rfl, rfl, fun _ h => h⟩

theorem publishLevelDelta_unprivileged (side : Side) (price : ℕ) :
    Unprivileged s (s.publishLevelDelta a side price) := ⟨rfl, rfl, fun _ h => h⟩

theorem notifyMaker_config (d : Desk B F) (fill : ExecutedFill) :
    (notifyMaker d fill).engine.config = d.engine.config := by
  unfold notifyMaker
  split
  · exact congrArg (fun p => p.2.1) (d.engine.onOrderFilled_settings (showOrderId B) _ _)
  · rfl

theorem recordFill_unprivileged (symbol underlying : String) (side : Side) (fill : ExecutedFill) :
    Unprivileged s (s.recordFill symbol underlying side fill) := by
  have hreported := recordFill_reported (s := s) symbol underlying side fill
  constructor
  · unfold recordFill
    split_ifs
    · exact notifyMaker_config _ _
    · rfl
  · exact hreported.snapshots
  · rw [hreported.market]
    exact fun _ h => h

theorem recordMatch_unprivileged (symbol underlying : String) (side : Side) (r : MatchResult) :
    Unprivileged s (s.recordMatch symbol underlying side r) := by
  unfold recordMatch recordFills
  split_ifs
  · apply Unprivileged.foldl id
    intro s fill
    exact recordFill_unprivileged _ _ _ _
  · exact .refl s

theorem publishMatch_unprivileged (side : Side) (r : MatchResult) :
    Unprivileged s (s.publishMatch a side r) := by
  unfold publishMatch
  split_ifs
  · exact ⟨rfl, rfl, fun _ h => h⟩
  · exact .refl s

theorem publishRest_unprivileged (side : Side) (price : ℕ) (r : MatchResult) :
    Unprivileged s (s.publishRest a side price r) := by
  unfold publishRest
  split_ifs
  · exact ⟨rfl, rfl, fun _ h => h⟩
  · exact .refl s

theorem reportLimit_unprivileged (symbol underlying : String) (side : Side) (price : ℕ)
    (r : MatchResult) : Unprivileged s (s.reportLimit symbol underlying a side price r) :=
  ((recordMatch_unprivileged _ _ _ _).trans (publishMatch_unprivileged _ _)).trans
    (publishRest_unprivileged _ _ _)

theorem addLimit_underlyings {side : Side} {price q : ℕ} {tif : TimeInForce} {x' : Exchange B}
    {res : Except String MatchResult}
    (h : x.addLimitOrderWithTif a id side price q tif = (res, x')) :
    x'.underlyings = x.underlyings := (congrArg (·.2.underlyings) h).symm

theorem market_underlyings {side : Side} {q : ℕ} {x' : Exchange B}
    {res : Except String MatchResult} (h : x.submitMarketOrder a id q side = (res, x')) :
    x'.underlyings = x.underlyings := (congrArg (·.2.underlyings) h).symm

theorem cancel_underlyings {x' : Exchange B} {res : Except String Bool}
    (h : x.cancelOrder a id = (res, x')) : x'.underlyings = x.underlyings :=
  (congrArg (·.2.underlyings) h).symm

theorem submitLimit_unprivileged (expStr : String) (tif : TimeInForce) (body : AddOrderRequest) :
    Unprivileged s (s.submitLimit expStr a tif body).2 := by
  have hopen := openBook_underlyings s.market a
  unfold submitLimit
  dsimp only
  split
  · rename_i e x' he
    apply withMarket_unprivileged
    rw [addLimit_underlyings he]
    exact hopen
  · rename_i r x' he
    unfold acceptLimit
    have hmarket : Unprivileged s (s.withMarket x') :=
      withMarket_unprivileged (by rw [addLimit_underlyings he]; exact hopen)
    exact (hmarket.trans (track_unprivileged _)).trans (reportLimit_unprivileged _ _ _ _ _)

theorem submitMarket_unprivileged (expStr : String) (body : MarketOrderRequest) :
    Unprivileged s (s.submitMarket expStr a body).2 := by
  have hopen := openBook_underlyings s.market a
  unfold submitMarket
  dsimp only
  split
  · rename_i e x' he
    apply withMarket_unprivileged
    rw [market_underlyings he]
    exact hopen
  · rename_i r x' he
    have hmarket : Unprivileged s (s.withMarket x') :=
      withMarket_unprivileged (by rw [market_underlyings he]; exact hopen)
    exact (hmarket.trans (recordMatch_unprivileged _ _ _ _)).trans (publishMatch_unprivileged _ _)

theorem publishCancelled_unprivileged (o : Option RestingOrder) :
    Unprivileged s (s.publishCancelled a o) := by
  cases o with
  | none => exact .refl s
  | some o => exact publishLevelDelta_unprivileged _ _

theorem cancelAt_unprivileged (key : String) : Unprivileged s (s.cancelAt a id key).2 := by
  unfold cancelAt
  split
  all_goals
    rename_i he
    have hmarket := withMarket_same (cancel_underlyings he)
  · exact hmarket
  · exact (hmarket.trans (untrack_unprivileged key)).trans (publishCancelled_unprivileged _)
  · exact hmarket.trans ⟨rfl, rfl, fun _ h => h⟩

theorem placeReplacement_unprivileged (expStr key : String) (side : Side) (price q : ℕ) :
    Unprivileged s (s.placeReplacement expStr key a side price q).2 := by
  unfold placeReplacement Exchange.addLimitOrder
  dsimp only
  split
  all_goals
    rename_i he
    have hmarket := withMarket_same (s := s) (congrArg (·.2.underlyings) he).symm
  · exact hmarket.trans ⟨rfl, rfl, fun _ h => h⟩
  · exact hmarket

theorem replaceOrder_unprivileged (expStr key : String) (o : RestingOrder) (price q : ℕ) :
    Unprivileged s (s.replaceOrder expStr key a id o price q).2 := by
  unfold replaceOrder
  split
  all_goals
    rename_i he
    have hmarket := withMarket_same (cancel_underlyings he)
  · exact hmarket
  · exact hmarket
  · have hcancelled := (hmarket.trans (untrack_unprivileged key)).trans
      (publishLevelDelta_unprivileged (a := a) o.side o.price)
    exact hcancelled.trans (placeReplacement_unprivileged _ _ _ _ _)

theorem submitItem_unprivileged (item : BulkOrderItem) :
    Unprivileged s (s.submitItem a item).2 := by
  unfold submitItem Exchange.addLimitOrderFull
  dsimp only
  split
  all_goals
    rename_i he
    have hmarket := withMarket_same (s := s) (congrArg (·.2.underlyings) he).symm
  · exact hmarket
  · exact (hmarket.trans (reportLimit_unprivileged _ _ _ _ _)).trans ⟨rfl, rfl, fun _ h => h⟩

theorem submitSingleOrder_unprivileged (item : BulkOrderItem) :
    Unprivileged s (s.submitSingleOrder item).2 := by
  have hcreate := withMarket_unprivileged (getOrCreate_underlyings s.market item.underlying)
  unfold submitSingleOrder
  dsimp only
  split
  · exact hcreate
  · exact hcreate
  · exact hcreate.trans (submitItem_unprivileged item)

theorem cancelBulkItemOrder_unprivileged (item : BulkOrderItem) :
    Unprivileged s (s.cancelBulkItemOrder item id).2 := by
  unfold cancelBulkItemOrder
  split
  · exact .refl s
  · exact .refl s
  · exact .refl s
  · split
    all_goals
      rename_i he
      have hmarket := withMarket_same (cancel_underlyings he)
    · exact hmarket
    · exact hmarket.trans ⟨rfl, rfl, fun _ h => h⟩
    · exact hmarket

theorem reconcile_unprivileged (o : AcceptedBulkOrder) (cancel : Except String Bool) :
    Unprivileged s (s.reconcile o cancel) := by
  unfold reconcile
  dsimp only
  split_ifs
  · exact ⟨rfl, rfl, fun _ h => h⟩
  · cases cancel with
    | ok _ => exact ⟨rfl, rfl, fun _ h => h⟩
    | error _ => exact .refl s

theorem rollbackNext_unprivileged (items : List BulkOrderItem) (acc : Outcomes × AppState B F)
    (o : AcceptedBulkOrder) : Unprivileged acc.2 (rollbackNext items acc o).2 := by
  unfold rollbackNext
  split
  · exact .refl _
  · exact (cancelBulkItemOrder_unprivileged _).trans (reconcile_unprivileged o _)

theorem batchNext_unprivileged (atomic : Bool) (b : Batch B F) (e : BulkOrderItem × ℕ) :
    Unprivileged b.state (Batch.next atomic b e).state := by
  rcases b.next_state_cases atomic e with heq | heq
  · rw [heq]
    exact .refl _
  · rw [heq]
    exact submitSingleOrder_unprivileged e.1

theorem bulkSubmitOrders_unprivileged (body : BulkOrderRequest) :
    Unprivileged s (s.bulkSubmitOrders body).2 := by
  have hall : Unprivileged s (s.submitAll body.atomic body.orders).state :=
    Unprivileged.foldl Batch.state (Batch.next body.atomic) (batchNext_unprivileged body.atomic) _
      (.start s)
  unfold bulkSubmitOrders
  split_ifs
  · exact .refl s
  · dsimp only
    unfold Batch.finish
    split
    · exact hall.trans (Unprivileged.foldl Prod.snd (rollbackNext body.orders)
        (rollbackNext_unprivileged body.orders) _ (∅, _))
    · exact hall

theorem cancelTracked_unprivileged (key : String) (o : OrderInfo) :
    Unprivileged s (s.cancelTracked key o).2 := by
  unfold cancelTracked
  split
  · exact .refl s
  · exact .refl s
  · split
    · exact .refl s
    · split
      all_goals
        rename_i he
        have hmarket := withMarket_same (cancel_underlyings he)
      · exact hmarket.trans ⟨rfl, rfl, fun _ h => h⟩
      · exact hmarket
      · exact hmarket

theorem bulkCancelNext_unprivileged (acc : BulkCancelResponse × AppState B F) (key : String) :
    Unprivileged acc.2 (bulkCancelNext acc key).2 := by
  rw [bulkCancelNext_snd]
  unfold bulkCancelOne
  split
  · exact .refl _
  · exact cancelTracked_unprivileged _ _

theorem cancelNext_unprivileged (acc : CancelAllResponse × AppState B F)
    (e : String × OrderInfo) : Unprivileged acc.2 (cancelNext acc e).2 := by
  rw [cancelNext_snd]
  exact cancelTracked_unprivileged e.1 e.2

theorem createExpiration_unprivileged (u e : String) :
    Unprivileged s (s.createExpiration u e).2 := by
  unfold createExpiration
  split
  · exact .refl s
  · apply withMarket_unprivileged
    rw [getOrCreateExpiration_underlyings]
    exact getOrCreate_underlyings _ _

theorem createStrike_unprivileged (u e : String) (strike : ℕ) :
    Unprivileged s (s.createStrike u e strike).2 := by
  unfold createStrike
  split
  · exact .refl s
  · apply withMarket_unprivileged
    rw [getOrCreateStrike_underlyings, getOrCreateExpiration_underlyings]
    exact getOrCreate_underlyings _ _

theorem addOrder_unprivileged (p : OptionPath) (body : AddOrderRequest) :
    Unprivileged s (s.addOrder p body).2 := by
  unfold addOrder
  split
  · exact .refl s
  · exact submitLimit_unprivileged _ _ _

theorem submitMarketOrder_unprivileged (p : OptionPath)
    (body : MarketOrderRequest) : Unprivileged s (s.submitMarketOrder p body).2 := by
  unfold submitMarketOrder
  split
  · exact .refl s
  · exact submitMarket_unprivileged _ _

theorem cancelOrder_unprivileged (p : OptionPath) (key : String) :
    Unprivileged s (s.cancelOrder p key).2 := by
  unfold cancelOrder
  split
  · exact .refl s
  · exact cancelAt_unprivileged key

theorem modifyOrder_unprivileged (p : OptionPath) (key : String)
    (body : ModifyOrderRequest) : Unprivileged s (s.modifyOrder p key body).2 := by
  unfold modifyOrder
  split
  · exact .refl s
  · exact replaceOrder_unprivileged _ _ _ _ _

theorem bulkCancelOrders_unprivileged (ids : List String) :
    Unprivileged s (s.bulkCancelOrders ids).2 := by
  unfold bulkCancelOrders
  split_ifs
  · exact .refl s
  · exact Unprivileged.foldl Prod.snd bulkCancelNext bulkCancelNext_unprivileged ids (⟨0, 0, []⟩, s)

theorem cancelAllOrders_unprivileged (q : CancelAllQuery) :
    Unprivileged s (s.cancelAllOrders q).2 := by
  unfold cancelAllOrders
  split
  · exact .refl s
  · exact Unprivileged.foldl Prod.snd cancelNext cancelNext_unprivileged _ (⟨0, 0⟩, s)

end Parts

section Prices
open MarketMakerEngine
variable {d d' d'' : Desk B F}

/-- What a requote keeps. -/
structure SameSettings (d d' : Desk B F) : Prop where
  settings : d'.engine.settings = d.engine.settings
  underlyings : d'.market.underlyings = d.market.underlyings

omit [Upstream B] in
theorem SameSettings.trans (h : SameSettings d d') (h' : SameSettings d' d'') :
    SameSettings d d'' :=
  ⟨h'.settings.trans h.settings, h'.underlyings.trans h.underlyings⟩

theorem dropStale_settings (d : Desk B F) (a : OptionAddr) (stale : Slots) :
    SameSettings d (d.dropStale a stale) := by
  unfold Desk.dropStale
  split_ifs
  · exact ⟨rfl, rfl⟩
  · have hcancel : SameSettings d (stale.ids.foldl (fun d id => d.cancelOnBook a id) d) := by
      apply List.foldlRecOn (motive := fun d' => SameSettings d d')
      · exact ⟨rfl, rfl⟩
      · exact fun d' hd i _ => hd.trans ⟨rfl, rfl⟩
    exact hcancel.trans ⟨foldl_untrack_settings _ _, rfl⟩

theorem placeOnBook_settings (d : Desk B F) (a : OptionAddr) (isBuy : Bool) (price q : ℕ) :
    SameSettings d (d.placeOnBook a isBuy price q).2 := by
  constructor
  · rw [Desk.placeOnBook_engine]
  · unfold Desk.placeOnBook Exchange.addLimitOrder Exchange.addLimitOrderFull
    dsimp only
    split
    all_goals
      rename_i he
      exact (congrArg (·.2.underlyings) he).symm

theorem placeLeg_settings (d : Desk B F) (a : OptionAddr) (price : ℕ) (o : ActiveOrderInfo) :
    SameSettings d (d.placeLeg a price o).2 := by
  have hplace := placeOnBook_settings d a o.isBuy price o.quantity
  unfold Desk.placeLeg
  split
  all_goals
    rename_i he
    rw [he] at hplace
    exact ⟨hplace.settings, hplace.underlyings⟩

theorem replaceQuotes_settings (d : Desk B F) (ctx : RequoteContext F) (strike : ℕ)
    (style : OptionStyle) (q : QuoteParams) :
    SameSettings d (d.replaceQuotes ctx strike style q) := by
  let a : OptionAddr := ⟨ctx.symbol, ctx.expiration, strike, style⟩
  let dropped := d.dropStale a (d.engine.slots (.new a))
  let bid := dropped.placeLeg a q.bidPrice (Desk.legInfo ctx strike style q true)
  let ask := bid.2.placeLeg a q.askPrice (Desk.legInfo ctx strike style q false)
  have hdropped : SameSettings d dropped := dropStale_settings d a _
  have hbid : SameSettings d bid.2 := hdropped.trans (placeLeg_settings _ _ _ _)
  have hask : SameSettings d ask.2 := hbid.trans (placeLeg_settings _ _ _ _)
  exact hask.trans ⟨recordLegs_settings (Slots.pair bid.1 ask.1), rfl⟩

variable [F64 F]

theorem updateQuote_settings (d : Desk B F) (ctx : RequoteContext F) (strike : ℕ)
    (style : OptionStyle) : SameSettings d (d.updateQuote ctx strike style) := by
  unfold Desk.updateQuote
  split
  · exact ⟨rfl, rfl⟩
  · split_ifs
    · exact replaceQuotes_settings _ _ _ _ _
    · exact ⟨rfl, rfl⟩

theorem requoteSymbol_settings (d : Desk B F) (symbol : String) :
    SameSettings d (d.requoteSymbol symbol) := by
  unfold Desk.requoteSymbol
  split
  · exact ⟨rfl, rfl⟩
  · split_ifs
    · apply List.foldlRecOn (motive := fun d' => SameSettings d d')
      · exact ⟨rfl, rfl⟩
      · exact fun d' hd i _ => hd.trans (updateQuote_settings _ _ _ _)
    · exact ⟨rfl, rfl⟩

theorem updatePrice_unprivileged (symbol : String) (cents : ℕ) :
    Unprivileged s (s.step (.engine (.updatePrice symbol cents))) := by
  change Unprivileged s { s with toDesk := s.toDesk.updatePrice symbol cents }
  unfold Desk.updatePrice
  dsimp only
  split_ifs
  · have hquote := requoteSymbol_settings { s.toDesk with
      engine := (s.engine.insertPrice symbol cents).send (.priceUpdated symbol cents) } symbol
    have hconfig := congrArg (fun p => p.2.1) hquote.settings
    refine ⟨hconfig, rfl, ?_⟩
    dsimp only
    rw [hquote.underlyings]
    exact fun _ h => h
  · exact ⟨rfl, rfl, fun _ h => h⟩

theorem insertPrice_unprivileged (display : F → String) (body : InsertPriceRequest F) :
    Unprivileged s (s.insertPrice display body).2 := by
  unfold insertPrice
  split
  · exact .refl s
  · exact updatePrice_unprivileged _ _

end Prices

end AppState

namespace Auth
open AppState

/-- The permission that what a handler does or shows calls for. -/
def Handler.level : Handler → Permission
  | .getControls | .killSwitch | .enableQuoting | .updateParameters | .listInstruments
  | .toggleInstrument | .deleteUnderlying | .createSnapshot | .listSnapshots | .getSnapshot
  | .restoreSnapshot => .admin
  | .insertPrice | .createUnderlying | .createExpiration | .createStrike | .addOrder
  | .submitMarketOrder | .cancelOrder | .modifyOrder | .bulkSubmitOrders | .bulkCancelOrders
  | .cancelAllOrders => .trade
  | _ => .read

section Effects
variable {B F Body : Type} [Upstream B] [F64 F] (display : F → String) (ex : Extractors Body F)

/-- A handler of the lowest level changes nothing. -/
theorem run_of_read {h : Handler} (hread : h.level = .read) (params : List String)
    (req : HttpRequest Body) (s : AppState B F) : h.run display ex params req s = s := by
  have hnone : ∀ params, h.change (B := B) display ex params req = none := by
    intro params
    cases h <;> first | rfl | cases hread
  unfold Handler.run
  split
  · rfl
  · rw [hnone]

/-- The changes of the handlers below Admin. -/
theorem change_unprivileged {h : Handler} (hlevel : h.level ≠ .admin) {params : List String}
    {req : HttpRequest Body} {f : AppState B F → AppState B F}
    (hf : h.change display ex params req = some f) (s : AppState B F) : Unprivileged s (f s) := by
  cases h with
  | insertPrice =>
    obtain ⟨b, -, rfl⟩ := Option.map_eq_some_iff.mp hf
    exact insertPrice_unprivileged display b
  | createUnderlying =>
    obtain ⟨u, -, rfl⟩ := Option.map_eq_some_iff.mp hf
    exact withMarket_unprivileged (getOrCreate_underlyings _ _)
  | createExpiration =>
    obtain ⟨p, -, rfl⟩ := Option.map_eq_some_iff.mp hf
    exact createExpiration_unprivileged _ _
  | createStrike =>
    obtain ⟨p, -, rfl⟩ := Option.map_eq_some_iff.mp hf
    exact createStrike_unprivileged _ _ _
  | addOrder =>
    obtain ⟨⟨p, rest⟩, -, hf⟩ := Option.bind_eq_some_iff.mp hf
    obtain ⟨body, -, hf⟩ := Option.bind_eq_some_iff.mp hf
    obtain rfl := Option.some.inj hf
    exact addOrder_unprivileged _ _
  | submitMarketOrder =>
    obtain ⟨⟨p, rest⟩, -, hf⟩ := Option.bind_eq_some_iff.mp hf
    obtain ⟨body, -, hf⟩ := Option.bind_eq_some_iff.mp hf
    obtain rfl := Option.some.inj hf
    exact submitMarketOrder_unprivileged _ _
  | cancelOrder =>
    obtain ⟨⟨p, rest⟩, -, hf⟩ := Option.bind_eq_some_iff.mp hf
    obtain ⟨key, -, hf⟩ := Option.bind_eq_some_iff.mp hf
    obtain rfl := Option.some.inj hf
    exact cancelOrder_unprivileged _ _
  | modifyOrder =>
    obtain ⟨⟨p, rest⟩, -, hf⟩ := Option.bind_eq_some_iff.mp hf
    obtain ⟨key, -, hf⟩ := Option.bind_eq_some_iff.mp hf
    obtain ⟨body, -, hf⟩ := Option.bind_eq_some_iff.mp hf
    obtain rfl := Option.some.inj hf
    exact modifyOrder_unprivileged _ _ _
  | bulkSubmitOrders =>
    obtain ⟨b, -, rfl⟩ := Option.map_eq_some_iff.mp hf
    exact bulkSubmitOrders_unprivileged b
  | bulkCancelOrders =>
    obtain ⟨ids, -, rfl⟩ := Option.map_eq_some_iff.mp hf
    exact bulkCancelOrders_unprivileged ids
  | cancelAllOrders =>
    obtain ⟨q, -, rfl⟩ := Option.map_eq_some_iff.mp hf
    exact cancelAllOrders_unprivileged q
  | _ => first | exact absurd rfl hlevel | cases hf

theorem run_unprivileged {h : Handler} (hlevel : h.level ≠ .admin) (params : List String)
    (req : HttpRequest Body) (s : AppState B F) :
    Unprivileged s (h.run display ex params req s) := by
  unfold Handler.run
  split
  · exact .refl s
  · split
    · exact .refl s
    · rename_i hf
      exact change_unprivileged display ex hlevel hf s

end Effects
end Auth
end OptionChainBackend
