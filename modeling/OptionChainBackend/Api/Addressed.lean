import OptionChainBackend.Api.Batch
import OptionChainBackend.Api.Parts
import OptionChainBackend.Api.Spelling

/-!
Tracked orders and the books their stored strings lead to. The strings are those of the
submission; the clock and the neighbouring expirations are those of the day they are read.
-/
namespace OptionChainBackend
open Foundation Upstream MarketMaker Exchange

/-- `expStr` is the date of `e` at `now`, or the segment `e` was created with. -/
def Spells (B : Type) [Upstream B] (now : ℕ) (expStr : String) (e : ExpirationDate) : Prop :=
  formatExpiration B now e = expStr ∨ parseExpiration expStr = .ok e

/-- The stored strings were right on the day of the submission. -/
structure OrderInfo.Addresses (B : Type) [Upstream B] (o : OrderInfo) (a : OptionAddr) : Prop
    extends o.Names a where
  expiration : Spells B o.createdAtMs o.expiration a.expiration

section Records
variable {B : Type} [Upstream B] {x : Exchange B} {o : OrderInfo} {a : OptionAddr}
  {underlying expStr : String} {e : ExpirationDate}

theorem spells_of_find (h : x.findExpirationByStr underlying expStr = some e) :
    Spells B x.now expStr e := by
  unfold findExpirationByStr at h
  split at h
  · rename_i e' hf
    obtain rfl := Option.some.inj h
    exact .inl (by simpa using List.find?_some hf)
  · split at h
    · rename_i e' hp
      obtain rfl : e = e' := by simpa using List.find?_some h
      exact .inr hp
    · cases h

theorem OrderInfo.Addresses.markFilled (h : o.Addresses B a) (now : ℕ) :
    (o.markFilled now).Addresses B a := ⟨h.toNames.markFilled now, h.expiration⟩

theorem OrderInfo.Addresses.rolledBack (h : o.Addresses B a) (q : ℕ) (cleared : Bool) (now : ℕ) :
    (o.rolledBack q cleared now).Addresses B a := by
  refine ⟨h.toNames.rolledBack q cleared now, ?_⟩
  unfold OrderInfo.rolledBack
  split_ifs <;> exact h.expiration

theorem OrderInfo.ofMatch_addresses {now : ℕ} (h : Spells B now expStr a.expiration) (id : OrderId)
    (side : Side) (price q : ℕ) (tif : OrderTimeInForce) (r : MatchResult) :
    (OrderInfo.ofMatch B id a.underlying expStr a.strike a.style side price q tif now
      r).Addresses B a := ⟨OrderInfo.ofMatch_names _ _ _ _ _ _ _ _ _, h⟩

end Records

namespace AppState
variable {B F : Type} [Upstream B] {s s' : AppState B F}

/-- Every tracked order names the book it was placed on. -/
def Addressed (s : AppState B F) : Prop :=
  ∀ key o, s.orders.lookup key = some o → ∃ i a, key = showOrderId B i ∧
    s.market.home i = some a ∧ o.Addresses B a

namespace Addressed

/-- Old records keep their addresses, new ones come with one. -/
theorem change (h : s.Addressed)
    (hhome : ∀ {i a}, s.market.home i = some a → s'.market.home i = some a)
    (ho : ∀ key o', s'.orders.lookup key = some o' →
      (∃ o, s.orders.lookup key = some o ∧ ∀ a, o.Addresses B a → o'.Addresses B a) ∨
      ∃ i a, key = showOrderId B i ∧ s'.market.home i = some a ∧ o'.Addresses B a) :
    s'.Addressed := by
  intro key o' hl
  rcases ho key o' hl with ⟨o, hold, hkeep⟩ | hnew
  · obtain ⟨i, a, hk, hh, ha⟩ := h key o hold
    exact ⟨i, a, hk, hhome hh, hkeep a ha⟩
  · exact hnew

theorem orders_eq (h : s.Addressed)
    (hhome : ∀ {i a}, s.market.home i = some a → s'.market.home i = some a)
    (ho : s'.orders = s.orders) : s'.Addressed :=
  h.change hhome fun _ o hl => .inl ⟨o, ho ▸ hl, fun _ => id⟩

theorem erase (h : s.Addressed)
    (hhome : ∀ {i a}, s.market.home i = some a → s'.market.home i = some a) {key : String}
    (ho : s'.orders = s.orders.erase key) : s'.Addressed := by
  apply h.change hhome
  intro k o hl
  rw [ho, Table.lookup_erase_eq] at hl
  split_ifs at hl
  exact .inl ⟨o, hl, fun _ => id⟩

theorem modify (h : s.Addressed)
    (hhome : ∀ {i a}, s.market.home i = some a → s'.market.home i = some a) {key : String}
    {f : OrderInfo → OrderInfo} (hf : ∀ o a, o.Addresses B a → (f o).Addresses B a)
    (ho : s'.orders = s.orders.modify key f) : s'.Addressed := by
  apply h.change hhome
  intro k o' hl
  rw [ho, Table.lookup_modify] at hl
  split_ifs at hl with hk
  · obtain ⟨o, hold, rfl⟩ := Option.map_eq_some_iff.mp hl
    exact .inl ⟨o, hk ▸ hold, hf o⟩
  · exact .inl ⟨o', hl, fun _ => id⟩

theorem insert (h : s.Addressed)
    (hhome : ∀ {i a}, s.market.home i = some a → s'.market.home i = some a) {i : OrderId}
    {a : OptionAddr} {info : OrderInfo} (hi : s'.market.home i = some a) (ha : info.Addresses B a)
    (ho : s'.orders = s.orders.insert (showOrderId B i) info) : s'.Addressed := by
  apply h.change hhome
  intro key o' hl
  rw [ho, Table.lookup_insert_eq] at hl
  split_ifs at hl with hk
  · obtain rfl := Option.some.inj hl
    exact .inr ⟨i, a, hk, hi, ha⟩
  · exact .inl ⟨o', hl, fun _ => id⟩

end Addressed

variable [LawfulUpstream B]

theorem submitLimit_addressed (hg : s.Grounded) (h : s.Addressed) (expStr : String)
    (a : OptionAddr) (tif : TimeInForce) (body : AddOrderRequest) :
    (s.submitLimit expStr a tif body).2.Addressed := by
  have hw := (submitLimit_advances hg expStr a tif body).wanes
  rcases submitLimit_cases hg.fresh expStr a tif body with ⟨x, he, -⟩ | ⟨r, x, he, -, hs⟩
  · rw [he] at hw ⊢
    exact h.orders_eq hw.home rfl
  · obtain ⟨hr, ho⟩ := acceptLimit_recorded (s := s) (x := x) (a := a) expStr body
      s.market.nextOrderId hs.filled.matched.positive
    rw [he] at hw ⊢
    refine h.insert (a := a) hw.home ?_ ?_ ho
    · rw [hr.market]
      exact hs.home_self
    · exact OrderInfo.ofMatch_addresses (.inl rfl) _ _ _ _ _ _

theorem submitMarket_addressed (hg : s.Grounded) (h : s.Addressed) (expStr : String)
    (a : OptionAddr) (body : MarketOrderRequest) : (s.submitMarket expStr a body).2.Addressed := by
  have hw := (submitMarket_advances hg expStr a body).wanes
  rcases submitMarket_cases hg.fresh expStr a body with ⟨x, he, -⟩ | ⟨r, x, he, -, hs⟩
  · rw [he] at hw ⊢
    exact h.orders_eq hw.home rfl
  · obtain ⟨-, ho⟩ := acceptMarket_recorded (s := s) (x := x) (a := a) expStr body.side
      hs.filled.matched.positive
    rw [he] at hw ⊢
    exact h.orders_eq hw.home ho

theorem submitSingleOrder_addressed (hg : s.Grounded) (h : s.Addressed) (item : BulkOrderItem) :
    (s.submitSingleOrder item).2.Addressed := by
  have hw := (submitSingleOrder_advances hg item).wanes
  rcases submitSingleOrder_cases s item with ⟨e, -, he⟩ | ⟨a, r, hsome, he⟩
  · rw [he] at hw ⊢
    exact h.orders_eq hw.home rfl
  · obtain ⟨hl, hs⟩ := placeItem_accepted hg.fresh hsome
    obtain ⟨hfind, hu, hk, hst, -⟩ := locate_ok hl
    rw [he] at hw ⊢
    refine h.insert (a := a) hw.home ?_ ?_ (acceptItem_orders _ _)
    · rw [acceptItem_market]
      exact hs.home_self
    · have hnow : (s.market.placeItem item).2.now =
          (s.market.getOrCreate item.underlying).now :=
        (placeItem_now hg.fresh item).trans (getOrCreate_idle _ _).now.symm
      have hspell := spells_of_find hfind
      rw [← hnow] at hspell
      unfold itemInfo
      rw [← hu, ← hk, ← hst]
      exact OrderInfo.ofMatch_addresses hspell _ _ _ _ _ _

theorem cancelAt_addressed (hg : s.Grounded) (h : s.Addressed) (a : OptionAddr) (id : OrderId)
    (key : String) : (s.cancelAt a id key).2.Addressed := by
  have hw := (cancelAt_advances hg a id key).wanes
  rcases cancelAt_cases (s := s) a id key with ⟨e, x, he, -⟩ | ⟨x, he, -⟩ | ⟨x, he, -⟩
  · rw [he] at hw ⊢
    exact h.orders_eq hw.home rfl
  · rw [he] at hw ⊢
    exact h.erase hw.home (publishCancelled_reported a _).orders
  · rw [he] at hw ⊢
    exact h.modify hw.home (fun o a ho => ho.markFilled _) rfl

theorem replaceOrder_addressed (hg : s.Grounded) (h : s.Addressed) {expStr : String}
    {a : OptionAddr} (hspell : Spells B s.market.now expStr a.expiration) (key : String)
    (id : OrderId) (o : RestingOrder) (price q : ℕ) :
    (s.replaceOrder expStr key a id o price q).2.Addressed := by
  rcases replaceOrder_cases (s := s) expStr key a id o price q with ⟨x, he, hi⟩ | ⟨x, he, -, hc⟩
  · rw [he]
    exact h.orders_eq (hi.toQuiet.wanes hg.fresh).home rfl
  · rw [he]
    have hw : Advances s (((s.withMarket x).untrack key).publishLevelDelta a o.side o.price) :=
      ((Advances.withMarket (hc.toRemoved.shrunk.wanes hg.fresh)).untrack key).reported
        (publishLevelDelta_reported a o.side o.price)
    have h1 : (((s.withMarket x).untrack key).publishLevelDelta a o.side o.price).Addressed :=
      h.erase hw.wanes.home rfl
    have hg1 := hg.advance hw
    rcases placeReplacement_cases hg1.fresh expStr key a o.side price q with
      ⟨x', he', hi'⟩ | ⟨r, x', he', -, hs'⟩
    · rw [he']
      exact h1.orders_eq (hi'.toQuiet.wanes hg1.fresh).home rfl
    · rw [he']
      refine h1.insert (hs'.wanes hg1.fresh).home hs'.home_self ?_ rfl
      have hnow : x'.now = s.market.now := hs'.now.trans hc.now
      rw [hnow]
      exact OrderInfo.ofMatch_addresses hspell _ _ _ _ _ _

theorem cancelTracked_addressed (hg : s.Grounded) (h : s.Addressed) (key : String)
    (o : OrderInfo) : (s.cancelTracked key o).2.Addressed := by
  have hw := (cancelTracked_advances hg key o).wanes
  rcases cancelTracked_cases (s := s) key o with ⟨e, x, he, -⟩ | ⟨a, id, x, he, -⟩
  · rw [he] at hw ⊢
    exact h.orders_eq hw.home rfl
  · rw [he] at hw ⊢
    exact h.erase hw.home rfl

theorem cancelBulkItemOrder_addressed (hg : s.Grounded) (h : s.Addressed) (item : BulkOrderItem)
    (id : OrderId) : (s.cancelBulkItemOrder item id).2.Addressed := by
  rcases cancelBulkItemOrder_cases (s := s) item id with ⟨res, x, he, hi, -⟩ | ⟨a, x, he, -, hc⟩
  · rw [he]
    exact h.orders_eq (hi.toQuiet.wanes hg.fresh).home rfl
  · rw [he]
    exact h.orders_eq (hc.toRemoved.shrunk.wanes hg.fresh).home rfl

omit [LawfulUpstream B] in
theorem reconcile_addressed (h : s.Addressed) (o : AcceptedBulkOrder)
    (cancel : Except String Bool) : (s.reconcile o cancel).Addressed := by
  unfold reconcile
  dsimp only
  split_ifs
  · exact h.modify id (fun o a ho => ho.rolledBack _ _ _) rfl
  · split
    · exact h.erase id rfl
    · exact h

omit [LawfulUpstream B] in
theorem spells_of_target {p : OptionPath} {key : String} {a : OptionAddr} {id : OrderId}
    (h : target s.market p key = .ok (a, id)) : Spells B s.market.now p.expStr a.expiration := by
  obtain ⟨⟨style, -, hl⟩, -⟩ := target_locate h
  exact spells_of_find (locate_ok hl).1

theorem restoreSnapshot_addressed (hg : s.Grounded) (h : s.Addressed) (snapshotId : String) :
    (s.restoreSnapshot snapshotId).2.Addressed := by
  rcases restoreSnapshot_cases (s := s) snapshotId with he | ⟨stored, hst, he⟩
  · rw [he]
    exact h
  · rw [he]
    exact h.orders_eq (restoreInfos_ages hg.fresh (hg.saved snapshotId stored hst)).1.home rfl

theorem addressed_partsKeep : PartsKeep fun s : AppState B F => s.Addressed where
  limit hg h _ := submitLimit_addressed hg h _ _ _ _
  market hg h _ := submitMarket_addressed hg h _ _ _
  item item hg h := submitSingleOrder_addressed hg h item
  delete hg h _ := cancelAt_addressed hg h _ _ _
  replace o price q hg h ht _ := replaceOrder_addressed hg h (spells_of_target ht) _ _ o price q
  cancel key o hg h := cancelTracked_addressed hg h key o
  rollback item o hg h :=
    reconcile_addressed (cancelBulkItemOrder_addressed hg h item o.orderId) o _
  untrack _ _ h := h.erase id rfl
  desk _ _ h hadv _ := h.orders_eq hadv.wanes.home rfl
  save _ _ h := h.orders_eq id rfl
  restore snapshotId hg h := restoreSnapshot_addressed hg h snapshotId

omit [LawfulUpstream B] in
theorem Start.addressed [F64 F] (h : s.Start) : s.Addressed := by
  obtain ⟨quoter, rfl⟩ := h
  intro key o ho
  have hnone : (∅ : Table String OrderInfo).lookup key = some o := ho
  simp at hnone

section Resolution

/-- The stored expiration of the order on `a` still leads there at `x`: it is a day count, or the
date has not moved and nothing listed earlier falls on it. -/
def StillLeads (x : Exchange B) (a : OptionAddr) (o : OrderInfo) : Prop :=
  (∃ n, parseExpiration o.expiration = .ok (.days n)) ∨
  (∀ n, a.expiration = .days n → x.now / 86400000 = o.createdAtMs / 86400000) ∧
    ∀ e ∈ before (x.expirations a.underlying) a.expiration,
      formatExpiration B x.now e ≠ o.expiration

/-- What the stored strings lead to, at any clock and beside any other books. -/
theorem trackedTarget_iff (hd : Dated B) {x : Exchange B} {i : OrderId}
    {a : OptionAddr} {o : OrderInfo} (ho : o.Addresses B a) (hb : x.hasBook a = true) :
    trackedTarget x (showOrderId B i) o = some (a, i) ↔ StillLeads x a o := by
  have hmem : a.expiration ∈ x.expirations a.underlying := by
    simp only [Catalog.hasBook, Catalog.getExpiration, Bool.and_eq_true, decide_eq_true_eq] at hb
    exact hb.1.2
  have hfind : trackedTarget x (showOrderId B i) o = some (a, i) ↔
      x.findExpirationByStr a.underlying o.expiration = some a.expiration := by
    unfold trackedTarget
    rw [LawfulUpstream.parse_show, ho.style, styleOfName_styleName, ho.underlying, ho.strike]
    dsimp only
    constructor
    · intro h
      split at h
      · rename_i b hl
        obtain rfl := (Prod.mk.inj (Option.some.inj h)).1
        exact (locate_ok hl).1
      · cases h
    · intro h
      rw [locate_of_find h hb]
  rw [hfind, findExpirationByStr_iff hd hmem]
  unfold StillLeads
  rcases ho.expiration with hform | hparse
  · -- the date of the submission
    have hnot : ∀ n, parseExpiration o.expiration ≠ .ok (.days n) := by
      intro n hn
      rw [hd.format_eq] at hform
      exact (parseExpiration_days hn).2.2.2 _ hform
    have hsame : formatExpiration B x.now a.expiration = o.expiration ↔
        ∀ n, a.expiration = .days n → x.now / 86400000 = o.createdAtMs / 86400000 := by
      rw [← hform, hd.format_inj]
      cases a.expiration with
      | days n =>
        simp only [ExpirationDate.dayAt, ExpirationDate.days.injEq]
        constructor
        · intro h m _
          omega
        · intro h
          have := h n rfl
          omega
      | dateTime t => simp [ExpirationDate.dayAt]
    rw [hsame]
    simp [hnot]
  · -- the segment the expiration was created with
    cases hexp : a.expiration with
    | days n =>
      rw [hexp] at hparse
      exact iff_of_true (.inl ⟨n, hparse, rfl⟩) (.inl ⟨n, hparse⟩)
    | dateTime t =>
      rw [hexp] at hparse
      have hform : formatExpiration B x.now (.dateTime t) = o.expiration := by
        rw [hd.format_eq, ← (parseExpiration_dateTime hparse).2.2]
        exact Calendar.formatYmd_inj.mpr rfl
      simp [hparse, hform]

/-- In every run, at any later clock and whatever books were created since, the stored strings of
a tracked order lead to the book it was placed on exactly when they still do so by `StillLeads`. -/
theorem tracked_resolves_iff [F64 F] (hd : Dated B) {ok : AppState B F → Request F → Prop}
    (h : Reaches Start step ok s) {key : String} {o : OrderInfo}
    (ho : s.orders.lookup key = some o) : ∃ i a, key = showOrderId B i ∧
      s.market.home i = some a ∧ ∀ x : Exchange B, x.hasBook a = true →
        (trackedTarget x key o = some (a, i) ↔ StillLeads x a o) := by
  have hinv := addressed_partsKeep.reaches (fun s hs => hs.addressed) h
  obtain ⟨i, a, rfl, hh, ha⟩ := hinv.2 key o ho
  exact ⟨i, a, rfl, hh, fun x hb => trackedTarget_iff hd ha hb⟩

end Resolution

section Reference

/-- A call 30 days out; its order is tracked under the date those days make. -/
def relativeOrder : List (Request ℚ) :=
  [.addOrder ⟨"BTC", "30", 10000, "call"⟩ ⟨.sell, 100, 5, none, none⟩]

theorem tracked_unresolved : ¬ ∀ s : AppState ReferenceBook ℚ,
    Reaches Start step (fun _ _ => True) s → ∀ i a o,
      s.orders.lookup (showOrderId ReferenceBook i) = some o → s.market.home i = some a →
      ∀ x : Exchange ReferenceBook, s.market.now ≤ x.now → x.hasBook a = true →
        trackedTarget x (showOrderId ReferenceBook i) o = some (a, i) := by
  intro h
  have hrun : Reaches Start step (fun _ _ => True) (relativeOrder.foldl step reference) :=
    (Reaches.start reference_start).run ⟨trivial, trivial⟩
  obtain ⟨o, ho⟩ : ∃ o, (relativeOrder.foldl step reference).orders.lookup
      (showOrderId ReferenceBook 0) = some o := by
    apply Option.isSome_iff_exists.mp
    decide +kernel
  have hone : ((relativeOrder.foldl step reference).orders.lookup
      (showOrderId ReferenceBook 0)).bind (trackedTarget
        ((relativeOrder.foldl step reference).market.tick 86400000)
        (showOrderId ReferenceBook 0)) = none := by decide +kernel
  have hall := h _ hrun 0 btcCall o ho (by decide +kernel)
    ((relativeOrder.foldl step reference).market.tick 86400000) (by decide +kernel)
    (by decide +kernel)
  rw [ho, Option.bind_some, hall] at hone
  cases hone

/-- An hour later the same order is still found. -/
theorem tracked_resolves_same_day : ∃ o, (relativeOrder.foldl step reference).orders.lookup "0" =
    some o ∧ trackedTarget ((relativeOrder.foldl step reference).market.tick 3600000) "0" o =
      some (btcCall, 0) := by
  have hrun : Reaches Start step (fun _ _ => True) (relativeOrder.foldl step reference) :=
    (Reaches.start reference_start).run ⟨trivial, trivial⟩
  obtain ⟨o, ho⟩ : ∃ o, (relativeOrder.foldl step reference).orders.lookup "0" = some o := by
    apply Option.isSome_iff_exists.mp
    decide +kernel
  obtain ⟨i, a, hk, hh, hall⟩ := tracked_resolves_iff ReferenceBook.dated hrun ho
  have hi : some i = some 0 := by
    rw [← LawfulUpstream.parse_show (B := ReferenceBook), ← hk]
    decide +kernel
  obtain rfl := Option.some.inj hi
  have ha : (relativeOrder.foldl step reference).market.home 0 = some btcCall := by decide +kernel
  obtain rfl := Option.some.inj (ha.symm.trans hh)
  have hcreated : ((relativeOrder.foldl step reference).orders.lookup "0").map
      OrderInfo.createdAtMs = some 0 := by decide +kernel
  rw [ho, Option.map_some, Option.some.injEq] at hcreated
  refine ⟨o, ho, (hall _ (by decide +kernel)).mpr (.inr ⟨fun n _ => ?_, fun e he => ?_⟩)⟩
  · rw [hcreated]
    decide +kernel
  · have hnone : before (((relativeOrder.foldl step reference).market.tick 3600000).expirations
        btcCall.underlying) btcCall.expiration = [] := by decide +kernel
    rw [hnone] at he
    cases he

end Reference
end AppState
end OptionChainBackend
