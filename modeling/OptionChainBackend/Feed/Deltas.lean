import OptionChainBackend.Api.Bars
import OptionChainBackend.Api.Segments
import OptionChainBackend.Feed.Mirror

/-!
Every user operation publishes what it changes, so a client that starts from a full snapshot and
applies the deltas of the book holds the book after every operation.
-/
namespace OptionChainBackend
open Foundation Upstream MarketMaker Exchange

namespace Exchange
variable {B : Type} [Upstream B] {x x' x'' : Exchange B} {a : OptionAddr}

/-- The same expirations, strikes and symbols at the same time; underlyings may be new. -/
structure SameLists (x x' : Exchange B) : Prop where
  expirations : x'.expirations = x.expirations
  strikes : x'.strikes = x.strikes
  symbols : x'.symbols = x.symbols
  now : x'.now = x.now

omit [Upstream B] in
theorem SameLists.refl (x : Exchange B) : SameLists x x := ⟨rfl, rfl, rfl, rfl⟩

omit [Upstream B] in
theorem SameLists.trans (h : SameLists x x') (h' : SameLists x' x'') : SameLists x x'' :=
  ⟨h'.expirations.trans h.expirations, h'.strikes.trans h.strikes, h'.symbols.trans h.symbols,
    h'.now.trans h.now⟩

omit [Upstream B] in
theorem SameLists.of_catalog (h : x'.toCatalog = x.toCatalog) (hn : x'.now = x.now) :
    SameLists x x' :=
  ⟨congrArg (·.expirations) h, congrArg (·.strikes) h, congrArg (·.symbols) h, hn⟩

omit [Upstream B] in
theorem SameLists.getOrCreate (x : Exchange B) (u : String) : SameLists x (x.getOrCreate u) := by
  unfold Exchange.getOrCreate
  split_ifs <;> exact ⟨rfl, rfl, rfl, rfl⟩

theorem SameLists.placeItem [LawfulUpstream B] (hf : x.Fresh) (item : BulkOrderItem) :
    SameLists x (x.placeItem item).2 := by
  have hcreate := SameLists.getOrCreate x item.underlying
  apply hcreate.trans
  apply SameLists.of_catalog (placeItem_cases hf item).1
  exact (placeItem_now hf item).trans hcreate.now.symm

/-- Where an item leads, once its underlying exists, does not depend on the other underlyings. -/
theorem SameLists.locate (h : SameLists x x') {u expStr : String} {strike : ℕ}
    {style : OptionStyle} : (x'.getOrCreate u).locate u expStr strike style =
      (x.getOrCreate u).locate u expStr strike style := by
  have hget : ∀ y : Exchange B, (y.getOrCreate u).get u = true := by
    intro y
    unfold Exchange.getOrCreate
    split_ifs with hu
    · exact hu
    · simp [Catalog.get]
  have hx := SameLists.getOrCreate x u
  have hx' := h.trans (SameLists.getOrCreate x' u)
  have hfind : (x'.getOrCreate u).findExpirationByStr u expStr =
      (x.getOrCreate u).findExpirationByStr u expStr := by
    simp only [findExpirationByStr, hx'.expirations, hx'.now, hx.expirations, hx.now]
  unfold Exchange.locate Catalog.getExpiration Catalog.getStrike
  rw [if_pos (hget x'), if_pos (hget x), hfind, hx'.expirations, hx.expirations, hx'.strikes,
    hx.strikes]

end Exchange

namespace AppState
variable {B F : Type} [Upstream B] {s s' : AppState B F} {a b : OptionAddr} {c : Client}

section Rows
variable [LawfulUpstream B]

/-- A row of bulk items. -/
theorem Copied.submitAll (h : Copied c a s) (hg : s.Grounded) (atomic : Bool)
    {items : List BulkOrderItem} (hapart : ∀ item ∈ items, ∀ b,
      (s.market.getOrCreate item.underlying).locate item.underlying item.expiration item.strike
        item.style = .ok b → Apart c a s.market b) :
    Copied c a (s.submitAll atomic items).state ∧
      SameLists s.market (s.submitAll atomic items).state.market := by
  apply submitAll_keeps (P := fun s' => Copied c a s' ∧ SameLists s.market s'.market) hg
  · exact ⟨h, .refl _⟩
  · rintro s' item hitem hg' ⟨h', hsame⟩
    have hlists : SameLists s'.market (s'.submitSingleOrder item).2.market := by
      have hplaced := SameLists.placeItem hg'.fresh item
      rcases submitSingleOrder_cases s' item with ⟨e, -, he⟩ | ⟨b, r, -, he⟩
      · rw [he]
        exact hplaced
      · rw [he]
        exact (acceptItem_market (s := s') (a := b) item s'.market.nextOrderId).symm ▸ hplaced
    obtain ⟨b, levels, hr, hb⟩ := submitSingleOrder_retells hg' item a
    refine ⟨h'.retold hr ?_, hsame.trans hlists⟩
    rcases hb with rfl | hl
    · exact .inl rfl
    · rw [hsame.locate] at hl
      apply (hapart item hitem b hl).of_symbol
      rw [hlists.symbols, hsame.symbols]

omit [LawfulUpstream B] in
/-- Records may change without the client noticing. -/
theorem Copied.orders (h : Copied c a s) (hm : s'.market = s.market) (hd : s'.deltas = s.deltas) :
    Copied c a s' := by
  apply h.hold _ _ _ hd
  · rw [hm]
    exact .of_eq rfl
  · rw [hm]
  · rw [hm]
    exact fun _ => rfl

omit [LawfulUpstream B] in
theorem reconcile_frame (o : AcceptedBulkOrder) (cancel : Except String Bool) :
    (s.reconcile o cancel).market = s.market ∧ (s.reconcile o cancel).deltas = s.deltas ∧
      (s.reconcile o cancel).snapshots = s.snapshots := by
  unfold reconcile
  dsimp only
  split_ifs
  · exact ⟨rfl, rfl, rfl⟩
  · split <;> exact ⟨rfl, rfl, rfl⟩

/-- A row of rollbacks, of orders that rest as their items say. -/
theorem Copied.rollbackOrders (h : Copied c a s') (hg : s'.Grounded)
    (hsame : SameLists s.market s'.market) {items : List BulkOrderItem}
    {accepted : List AcceptedBulkOrder}
    (hrests : ∀ o ∈ accepted, o.orderId < s'.market.nextOrderId ∧ ∃ item,
      items[o.index]? = some item ∧ s'.RestsAs o.orderId item.side item.price)
    (hapart : ∀ item ∈ items, ∀ b,
      (s.market.getOrCreate item.underlying).locate item.underlying item.expiration item.strike
        item.style = .ok b → Apart c a s.market b) :
    Copied c a (s'.rollbackOrders items accepted).2 := by
  apply And.left (b := SameLists s.market (s'.rollbackOrders items accepted).2.market ∧
    ∀ o ∈ accepted, o.orderId < (s'.rollbackOrders items accepted).2.market.nextOrderId ∧
      ∃ item, items[o.index]? = some item ∧
        (s'.rollbackOrders items accepted).2.RestsAs o.orderId item.side item.price)
  apply foldl_keeps (P := fun s' => Copied c a s' ∧ SameLists s.market s'.market ∧
    ∀ o ∈ accepted, o.orderId < s'.market.nextOrderId ∧ ∃ item,
      items[o.index]? = some item ∧ s'.RestsAs o.orderId item.side item.price)
    (fun acc : Outcomes × AppState B F => acc.2) (rollbackNext items) _ _ (∅, s') hg
    ⟨h, hsame, hrests⟩
  · intro acc o hacc
    unfold rollbackNext
    split
    · exact .refl hacc.fresh
    · exact rollbackOrder_advances hacc _ o
  · rintro acc o ho hacc ⟨hcopied, hlists, hall⟩
    obtain ⟨-, item, hget, hrest⟩ := hall o ho
    let s₁ := (acc.2.cancelBulkItemOrder item o.orderId).2
    have hnext : rollbackNext items acc o = (acc.1.insert o.index
        (classify B o (acc.2.cancelBulkItemOrder item o.orderId).1),
        s₁.reconcile o (acc.2.cancelBulkItemOrder item o.orderId).1) := by
      unfold rollbackNext
      rw [hget]
      rfl
    have hcancel : SameLists acc.2.market s₁.market ∧ Stays acc.2.market s₁.market ∧
        s₁.snapshots = acc.2.snapshots := by
      rcases cancelBulkItemOrder_cases (s := acc.2) item o.orderId with
        ⟨res, x, he, hi, hcat, -⟩ | ⟨b, x, he, -, hc⟩
      · have hs₁ : s₁ = acc.2.withMarket x := congrArg Prod.snd he
        rw [hs₁]
        exact ⟨.of_catalog hcat hi.now, .of_quiet hi.toQuiet, rfl⟩
      · have hs₁ : s₁ = (acc.2.withMarket x).publishLevelDelta b item.side item.price :=
          congrArg Prod.snd he
        rw [hs₁]
        exact ⟨.of_catalog hc.catalog hc.now, .of_shrunk hc.toRemoved.shrunk, rfl⟩
    obtain ⟨hsame₁, hstays, hsaved⟩ := hcancel
    obtain ⟨b, levels, hr, hb⟩ := cancelBulkItemOrder_retells hrest a
    have hcopied₁ : Copied c a s₁ := by
      apply hcopied.retold hr
      rcases hb with rfl | hl
      · exact .inl rfl
      · have hl := getOrCreate_locate hl item.underlying
        rw [hlists.locate] at hl
        apply (hapart item (List.mem_of_getElem? hget) b hl).of_symbol
        rw [hsame₁.symbols, hlists.symbols]
    obtain ⟨hm, hd, hsn⟩ := reconcile_frame (s := s₁) o
      (acc.2.cancelBulkItemOrder item o.orderId).1
    rw [hnext]
    refine ⟨hcopied₁.orders hm hd, ?_, fun o' ho' => ?_⟩
    · rw [hm]
      exact hlists.trans hsame₁
    · obtain ⟨hissued', item', hget', hrest'⟩ := hall o' ho'
      refine ⟨?_, item', hget', hrest'.stays hissued' ?_ (hsn.trans hsaved)⟩
      · rw [hm]
        exact hissued'.trans_le hstays.next
      · rw [hm]
        exact hstays

theorem Copied.bulkSubmitOrders (h : Copied c a s) (hg : s.Grounded) {body : BulkOrderRequest}
    (hapart : ∀ item ∈ body.orders, ∀ b,
      (s.market.getOrCreate item.underlying).locate item.underlying item.expiration item.strike
        item.style = .ok b → Apart c a s.market b) :
    Copied c a (s.bulkSubmitOrders body).2 := by
  obtain ⟨hall, hsame⟩ := h.submitAll hg body.atomic hapart
  have hadv := submitAll_advances hg body.atomic body.orders
  have hplaced := submitAll_placed hg.fresh body.atomic body.orders
  have hrests := submitAll_restsAs hg body.atomic body.orders
  unfold AppState.bulkSubmitOrders
  split_ifs
  · exact h
  · dsimp only
    unfold Batch.finish
    split
    · exact hall.rollbackOrders (hg.advance hadv) hsame
        (fun o ho => ⟨hplaced.issued ho, hrests o ho⟩) hapart
    · exact hall

/-- What a row of cancels keeps besides the copy. -/
structure Sweeps (c : Client) (a : OptionAddr) (s s' : AppState B F) : Prop where
  copied : Copied c a s'
  catalog : s'.market.toCatalog = s.market.toCatalog
  now : s'.market.now = s.market.now
  stays : Stays s.market s'.market
  snapshots : s'.snapshots = s.snapshots
  orders : ∀ key o, s'.orders.lookup key = some o → s.orders.lookup key = some o

omit [LawfulUpstream B] in
theorem Sweeps.refl (h : Copied c a s) : Sweeps c a s s :=
  ⟨h, rfl, rfl, .of_quiet (.refl _), rfl, fun _ _ => id⟩

/-- One cancel of an order that was tracked when the row began. -/
theorem Sweeps.cancelTracked (h : Sweeps c a s s') (hg : s.Grounded) (hp : s.Priced)
    {key : String} {o : OrderInfo} (ho : s.orders.lookup key = some o)
    (hapart : ∀ b id, trackedTarget s.market key o = some (b, id) → Apart c a s.market b) :
    Sweeps c a s (s'.cancelTracked key o).2 := by
  obtain ⟨i, _, rfl, -, hh, -⟩ := hg.tracked key o ho
  have hrest : s'.RestsAs i o.side o.price :=
    (hp i o ho).stays (hg.fresh.home hh) h.stays h.snapshots
  obtain ⟨b, levels, hr, hb⟩ := cancelTracked_retells hrest a
  have hcopied : Copied c a (s'.cancelTracked (showOrderId B i) o).2 := by
    apply h.copied.retold hr
    rcases hb with rfl | ⟨id, ht⟩
    · exact .inl rfl
    · rw [trackedTarget_congr h.catalog h.now] at ht
      apply (hapart b id ht).of_symbol
      rcases cancelTracked_cases (s := s') (showOrderId B i) o with
        ⟨e, x, he, -, hcat, -⟩ | ⟨b', id', x, he, -, hc⟩
      · rw [he]
        exact congrArg (fun cat : Catalog => cat.symbols b) (hcat.trans h.catalog)
      · rw [he]
        exact congrArg (fun cat : Catalog => cat.symbols b) (hc.catalog.trans h.catalog)
  rcases cancelTracked_cases (s := s') (showOrderId B i) o with
    ⟨e, x, he, hi, hcat, -⟩ | ⟨b', id', x, he, -, hc⟩
  · rw [he] at hcopied ⊢
    exact ⟨hcopied, hcat.trans h.catalog, hi.now.trans h.now, h.stays.trans (.of_quiet hi.toQuiet),
      h.snapshots, h.orders⟩
  · rw [he] at hcopied ⊢
    refine ⟨hcopied, hc.catalog.trans h.catalog, hc.now.trans h.now,
      h.stays.trans (.of_shrunk hc.toRemoved.shrunk), h.snapshots, fun k o' ho' => ?_⟩
    have hlookup : (s'.orders.erase (showOrderId B i)).lookup k = some o' := ho'
    rw [Table.lookup_erase_eq] at hlookup
    split_ifs at hlookup
    exact h.orders k o' hlookup

end Rows
section Requests

/-- The books a user's request can reach. -/
def Touches (s : AppState B F) : Request F → OptionAddr → Prop
  | .addOrder p body, b => ∃ tif, s.checkAddOrder p body = .ok (b, tif)
  | .submitMarketOrder p body, b => checkMarketOrder p body = .ok b
  | .cancelOrder p key, b => ∃ id, target s.market p key = .ok (b, id)
  | .modifyOrder p key _, b => ∃ id, target s.market p key = .ok (b, id)
  | .bulkSubmitOrders body, b => ∃ item ∈ body.orders,
      (s.market.getOrCreate item.underlying).locate item.underlying item.expiration item.strike
        item.style = .ok b
  | .bulkCancelOrders keys, b => ∃ key ∈ keys, ∃ o id, s.orders.lookup key = some o ∧
      trackedTarget s.market key o = some (b, id)
  | .cancelAllOrders q, b => ∃ f key o id, parseCancelFilter q = .ok f ∧
      s.orders.lookup key = some o ∧ f.selects o = true ∧
      trackedTarget s.market key o = some (b, id)
  | _, _ => False

/-- The request is none of the engine, no restore and no removal; its replacement meets no maker
and no order on book `a` expires. -/
def OfUser (a : OptionAddr) (s : AppState B F) : Request F → Prop
  | .modifyOrder p key body => ∀ b id o price q,
      s.checkModifyOrder p key body = .ok (b, id, o, price, q) →
        ∀ i m, s.market.getOrder b i = some m → m.side = o.side.opposite →
          ¬ Crosses o.side (some price) m.price
  | .tick ms => ∀ i, (s.market.tick ms).getOrder a i = s.market.getOrder a i
  | .restoreSnapshot _ | .deleteUnderlying _ | .engine _ => False
  | _ => True

/-- A user operation that a client of book `a` can follow: it reaches no other book of the same
symbol. -/
structure Followed (a : OptionAddr) (s : AppState B F) (r : Request F) : Prop where
  user : s.OfUser a r
  apart : ∀ b, s.Touches r b → b = a ∨ (s.market.openBook b).symbols b ≠ s.market.symbols a

theorem Followed.of_hasBook {r : Request F} (h : s.Followed a r) (hc : s.market.symbols a = c.symbol)
    (ht : s.Touches r b) (hb : s.market.hasBook b = true) : Apart c a s.market b := by
  have hapart := h.apart b ht
  rw [openBook_of_hasBook hb, hc] at hapart
  exact hapart

variable [LawfulUpstream B] {r : Request F}

theorem Copied.replaceOrder (h : Copied c a s) (hg : s.Grounded) (hb : Apart c a s.market b)
    (hbook : s.market.hasBook b = true) (expStr key : String) {id : OrderId} {o : RestingOrder}
    (ho : s.market.getOrder b id = some o) {price q : ℕ}
    (huncrossed : ∀ i m, s.market.getOrder b i = some m → m.side = o.side.opposite →
      ¬ Crosses o.side (some price) m.price) :
    Copied c a (s.replaceOrder expStr key b id o price q).2 := by
  rcases replaceOrder_cases (s := s) expStr key b id o price q with ⟨x, he, hi⟩ | ⟨x, he, hx, hc⟩
  · have hcat := replaceOrder_catalog (s := s) expStr key b id o price q
    rw [he] at hcat ⊢
    have hr : Retells s (s.withMarket x) b [] := by
      apply Retells.idle_of_catalog hi hcat
      rfl
    apply h.retold hr
    exact hb.of_symbol (congrArg (fun cat : Catalog => cat.symbols b) hcat)
  · let s₁ := ((s.withMarket x).untrack key).publishLevelDelta b o.side o.price
    have hr : Retells s s₁ b [⟨o.side, o.price⟩] := by
      apply Retells.cancelled hc rfl _ rfl
      intro o' ho'
      obtain rfl := Option.some.inj (ho.symm.trans ho')
      exact ⟨rfl, rfl⟩
    have hsym₁ : s₁.market.symbols b = s.market.symbols b := hr.symbols b hbook
    have hcopied₁ : Copied c a s₁ := h.retold hr (hb.of_symbol hsym₁)
    have hg₁ : s₁.Grounded := hg.advance (((Advances.withMarket
      (hc.toRemoved.shrunk.wanes hg.fresh)).untrack key).reported
        (publishLevelDelta_reported b o.side o.price))
    obtain ⟨levels, hr₂⟩ := placeReplacement_retells hg₁ expStr key b o.side price q (by
      intro i m hm
      have hold : x.getOrder b i = some m := hm
      rw [hc.getOrder] at hold
      split_ifs at hold
      exact huncrossed i m hold)
    rw [he]
    apply hcopied₁.retold hr₂
    apply hb.of_symbol
    exact (hr₂.symbols b (hr.books b hbook)).trans hsym₁

/-- Opening books leaves the client's book alone. -/
theorem Copied.idle (h : Copied c a s) {x : Exchange B} (hi : Idle s.market x)
    (hsym : x.symbols a = s.market.symbols a) : Copied c a (s.withMarket x) :=
  h.hold hi.grows hsym (hi.toQuiet.same_level a) rfl

/-- One user operation. -/
theorem Copied.step [F64 F] (h : Copied c a s) (hg : s.Grounded) (hp : s.Priced)
    (hok : s.Followed a r) : Copied c a (s.step r) := by
  have hopened : ∀ b, s.Touches r b → b = a ∨ (s.market.openBook b).symbols b ≠ c.symbol := by
    intro b hb
    rw [← h.symbol]
    exact hok.apart b hb
  cases r with
  | addOrder p body =>
    change Copied c a (s.addOrder p body).2
    unfold addOrder
    split
    · exact h
    · rename_i b tif hcheck
      obtain ⟨levels, hr⟩ := submitLimit_retells hg p.expStr b tif body
      apply h.retold hr
      have hb : Apart c a (s.market.openBook b) b := hopened b ⟨tif, hcheck⟩
      apply hb.of_symbol
      rw [submitLimit_catalog]
  | submitMarketOrder p body =>
    change Copied c a (s.submitMarketOrder p body).2
    unfold submitMarketOrder
    split
    · exact h
    · rename_i b hcheck
      obtain ⟨levels, hr⟩ := submitMarket_retells hg p.expStr b body
      apply h.retold hr
      have hb : Apart c a (s.market.openBook b) b := hopened b hcheck
      apply hb.of_symbol
      rw [submitMarket_catalog]
  | cancelOrder p key =>
    change Copied c a (s.cancelOrder p key).2
    unfold cancelOrder
    split
    · exact h
    · rename_i b id ht
      obtain ⟨⟨style, -, hl⟩, -⟩ := target_locate ht
      obtain ⟨-, -, -, -, hbook⟩ := locate_ok hl
      obtain ⟨levels, hr⟩ := cancelAt_retells (s := s) b id key
      apply h.retold hr
      apply (hok.of_hasBook h.symbol ⟨id, ht⟩ hbook).of_symbol
      rw [cancelAt_catalog]
  | modifyOrder p key body =>
    change Copied c a (s.modifyOrder p key body).2
    unfold modifyOrder
    split
    · exact h
    · rename_i b id o price q hcheck
      obtain ⟨ht, ho, -⟩ := checkModifyOrder_ok hcheck
      obtain ⟨⟨style, -, hl⟩, -⟩ := target_locate ht
      obtain ⟨-, -, -, -, hbook⟩ := locate_ok hl
      exact h.replaceOrder hg (hok.of_hasBook h.symbol ⟨id, ht⟩ hbook) hbook p.expStr key ho
        (hok.user b id o price q hcheck)
  | bulkSubmitOrders body =>
    apply h.bulkSubmitOrders hg
    intro item hitem b hl
    have hb := hopened b ⟨item, hitem, hl⟩
    obtain ⟨-, -, -, -, hbook⟩ := locate_ok hl
    have hstrike : s.market.getStrike b.underlying b.expiration b.strike = true := by
      simp only [Catalog.hasBook, Bool.and_eq_true] at hbook
      have hlisted := hbook.2
      unfold Catalog.getStrike at hlisted ⊢
      rw [(SameLists.getOrCreate s.market item.underlying).strikes] at hlisted
      exact hlisted
    rw [openBook_of_strike hstrike] at hb
    exact hb
  | bulkCancelOrders keys =>
    refine Sweeps.copied (s := s) (bulkCancelOrders_keeps (P := Sweeps c a s) hg (.refl h) ?_)
    intro s' o key hkey ho hg' hswept
    have hold := hswept.orders key o ho
    apply hswept.cancelTracked hg hp hold
    intro b id ht
    exact hok.of_hasBook h.symbol ⟨key, hkey, o, id, hold, ht⟩ (trackedTarget_hasBook ht)
  | cancelAllOrders q =>
    refine Sweeps.copied (s := s) (cancelAllOrders_keeps (P := Sweeps c a s) hg (.refl h) ?_)
    intro s' key o f hf ho hsel hg' hswept
    apply hswept.cancelTracked hg hp ho
    intro b id ht
    exact hok.of_hasBook h.symbol ⟨f, key, o, id, hf, ho, hsel, ht⟩ (trackedTarget_hasBook ht)
  | createSnapshot id => exact h.orders rfl rfl
  | createUnderlying u =>
    exact h.idle (getOrCreate_idle _ u) (congrFun (SameLists.getOrCreate s.market u).symbols a)
  | createExpiration u expStr =>
    change Copied c a (s.createExpiration u expStr).2
    unfold createExpiration
    split
    · exact h
    · exact h.idle ((getOrCreate_idle _ u).trans (getOrCreateExpiration_idle _ u _))
        (congrFun (getOrCreateExpiration_lists s.market u _).2 a)
  | createStrike u expStr strike =>
    change Copied c a (s.createStrike u expStr strike).2
    unfold createStrike
    split
    · exact h
    · rename_i e _
      exact h.idle (openBook_idle s.market ⟨u, e, strike, .call⟩)
        (openBook_symbols s.market ⟨u, e, strike, .call⟩ h.book)
  | cleanupOldOrders age =>
    change Copied c a (s.cleanupOldOrders age).2
    apply List.foldlRecOn (motive := fun s' => Copied c a s') _ AppState.untrack h
    intro s' hs' key _
    exact hs'.orders rfl rfl
  | tick ms =>
    refine h.hold (.of_eq rfl) rfl (fun level => ?_) rfl
    apply levelQuantity_congr
    intro o _ _
    have hsame := hok.user o.id
    rw [← hsame]
    rfl
  | restoreSnapshot id => exact hok.user.elim
  | deleteUnderlying u => exact hok.user.elim
  | engine op => exact hok.user.elim

/-- In every run of user operations. -/
theorem Copied.reached [F64 F] {s₀ : AppState B F} (h₀ : Copied c a s₀) (hg : s₀.Grounded)
    (hp : s₀.Priced) (h : Reaches (· = s₀) AppState.step (Followed a) s) : Copied c a s := by
  have hall : s.Grounded ∧ s.Priced ∧ Copied c a s := by
    apply Reaches.invariant (P := fun s => s.Grounded ∧ s.Priced ∧ Copied c a s) _ _ h
    · rintro s rfl
      exact ⟨hg, hp, h₀⟩
    · rintro s r ⟨hg', hp', h'⟩ hok
      exact ⟨hg'.step r, Priced.calls.step Priced.rest hg' hp' r, h'.step hg' hp' hok⟩
  exact hall.2.2

end Requests
end AppState

/-- The quantity shown on a level, without the bound of the counter. -/
def Level.visibleOn {B : Type} [Upstream B] (level : Level) (b : B) : ℕ :=
  (((Upstream.orders b).filter fun o => o.price = level.price ∧ o.side = level.side).map
    RestingOrder.visibleQuantity).sum

/-- The copy has an entry for each price at which something rests, with the quantity shown there,
and no other entry. -/
def ShowsBook {B : Type} [Upstream B] (t : Table Level ℕ) (b : B) : Prop :=
  ∀ (level : Level) (q : ℕ), t.lookup level = some q ↔
    (∃ o ∈ Upstream.orders b, o.side = level.side ∧ o.price = level.price) ∧ q = level.visibleOn b

section Showing
variable {B : Type} [Upstream B] {b : B} {level : Level}

theorem saturatingAdd_foldl {qs : List ℕ} {q : ℕ} (h : q + qs.sum < 2 ^ 64) :
    qs.foldl saturatingAddU64 q = q + qs.sum := by
  induction qs generalizing q with
  | nil => simp
  | cons p qs ih =>
    simp only [List.foldl_cons, List.sum_cons] at h ⊢
    rw [saturatingAddU64_eq (by omega), ih (by omega)]
    omega

theorem Level.quantityOn_eq (h : level.visibleOn b < 2 ^ 64) :
    level.quantityOn b = level.visibleOn b := by
  have hsum : 0 + level.visibleOn b < 2 ^ 64 := by omega
  exact (saturatingAdd_foldl hsum).trans (Nat.zero_add _)

/-- A level is shown when something rests on it. -/
theorem Level.visibleOn_pos [LawfulUpstream B] : level.visibleOn b ≠ 0 ↔
    ∃ o ∈ Upstream.orders b, o.side = level.side ∧ o.price = level.price := by
  constructor
  · intro hne
    obtain ⟨q, hq, -⟩ := List.exists_mem_ne_zero_of_sum_ne_zero hne
    obtain ⟨o, ho, -⟩ := List.mem_map.mp hq
    obtain ⟨hmem, hlevel⟩ := List.mem_filter.mp ho
    obtain ⟨hprice, hside⟩ := of_decide_eq_true hlevel
    exact ⟨o, hmem, hside, hprice⟩
  · rintro ⟨o, ho, hside, hprice⟩ hzero
    have hpos : 0 < o.visibleQuantity :=
      LawfulUpstream.getOrder_pos b o.id o ((LawfulUpstream.mem_orders b o).mp ho)
    have hle : o.visibleQuantity ≤ level.visibleOn b := by
      apply List.single_le_sum (fun _ _ => Nat.zero_le _)
      exact List.mem_map.mpr ⟨o, List.mem_filter.mpr ⟨ho, by simp [hside, hprice]⟩, rfl⟩
    omega

theorem Level.visibleOn_le (level : Level) (b : B) :
    level.visibleOn b ≤ ((Upstream.orders b).map RestingOrder.visibleQuantity).sum := by
  unfold Level.visibleOn
  induction Upstream.orders b with
  | nil => simp
  | cons o os ih =>
    simp only [List.filter_cons, List.map_cons, List.sum_cons]
    split_ifs
    · simp only [List.map_cons, List.sum_cons]
      omega
    · omega

end Showing

namespace AppState
variable {B F : Type} [Upstream B] [LawfulUpstream B] [Leveled B] [LawfulLeveled B] [F64 F]
  {s₀ s : AppState B F} {a : OptionAddr} {depth : ℕ}

/-- A client that reads the whole book once and applies the deltas of the book in their order has,
after every user operation, the levels of the book with their visible quantities. -/
theorem deltas_complete {ok : AppState B F → Request F → Prop} (h₀ : Reaches Start step ok s₀)
    (hb : s₀.market.hasBook a = true) (hfull : FullDepth (s₀.market.books a) depth)
    (h : Reaches (· = s₀) step (Followed a) s)
    (hcap : ∀ level : Level, level.visibleOn (s.market.books a) < 2 ^ 64) :
    ShowsBook ((Client.follow s₀ a depth).copy s.deltas) (s.market.books a) := by
  obtain ⟨hg, hp⟩ := Priced.reached h₀
  have hstart : Copied (Client.follow s₀ a depth) a s₀ := by
    refine ⟨le_rfl, hb, rfl, ?_⟩
    have hopened : (Client.follow s₀ a depth).copy s₀.deltas =
        Table.putAll ∅ (Level.listing (s₀.market.books a) depth) := by
      simp [Client.copy, Client.follow]
    rw [hopened]
    exact listing_replicates hfull
  intro level q
  have hq := Level.quantityOn_eq (hcap level)
  rw [(hstart.reached hg hp h).copy level q, levelQuantity_eq, hq, ← Level.visibleOn_pos]
  constructor
  · rintro ⟨rfl, hne⟩
    exact ⟨hne, rfl⟩
  · rintro ⟨hne, rfl⟩
    exact ⟨rfl, hne⟩

section Reference

def askedOne : OptionAddr := ⟨"BTC", .days 30, 10000, .call⟩

/-- A sell of 5 rests when the client reads the book. -/
def asked : AppState ReferenceBook ℚ :=
  reference.step (.addOrder ⟨"BTC", "30", 10000, "call"⟩ ⟨.sell, 100, 5, none, none⟩)

/-- Then 2 are taken and a bid of 4 is left. -/
def takenAndBid : List (Request ℚ) :=
  [.submitMarketOrder ⟨"BTC", "30", 10000, "call"⟩ ⟨.buy, 2⟩,
    .addOrder ⟨"BTC", "30", 10000, "call"⟩ ⟨.buy, 99, 4, none, none⟩]

theorem deltas_complete_takenAndBid :
    let s := takenAndBid.foldl step asked
    ShowsBook ((Client.follow asked askedOne 10).copy s.deltas) (s.market.books askedOne) ∧
      ((Client.follow asked askedOne 10).copy s.deltas).lookup ⟨.sell, 100⟩ = some 3 ∧
      ((Client.follow asked askedOne 10).copy s.deltas).lookup ⟨.buy, 99⟩ = some 4 ∧
      ((Client.follow asked askedOne 10).copy s.deltas).lookup ⟨.buy, 98⟩ = none := by
  have hpath : parseExpiration "30" = .ok (.days 30) := by decide +kernel
  have hcall : parseOptionStyle "call" = .ok .call := by decide +kernel
  have hlimit : ∀ {s : AppState ReferenceBook ℚ} {body : AddOrderRequest},
      Followed askedOne s (.addOrder ⟨"BTC", "30", 10000, "call"⟩ body) := by
    refine ⟨trivial, ?_⟩
    rintro b ⟨tif, hcheck⟩
    obtain ⟨he, hu, hk, hstyle, -⟩ := checkAddOrder_ok hcheck
    obtain ⟨u, e, k, style⟩ := b
    rw [hpath] at he
    rw [hcall] at hstyle
    cases he
    cases hstyle
    exact .inl (by rw [show u = "BTC" from hu, show k = 10000 from hk, askedOne])
  have hmarket : ∀ s : AppState ReferenceBook ℚ, Followed askedOne s
      (.submitMarketOrder ⟨"BTC", "30", 10000, "call"⟩ ⟨.buy, 2⟩) := by
    refine fun s => ⟨trivial, ?_⟩
    intro b hcheck
    have hat : checkMarketOrder ⟨"BTC", "30", 10000, "call"⟩ ⟨.buy, 2⟩ = .ok askedOne := by
      decide +kernel
    exact .inl (Except.ok.inj (hcheck.symm.trans hat))
  have hallowed : Allowed step (Followed askedOne) asked takenAndBid :=
    ⟨hmarket _, hlimit, trivial⟩
  have hstart : Reaches (· = asked) step (Followed askedOne) asked := .start rfl
  have hasked : Reaches Start step (fun _ _ => True) asked :=
    (Reaches.start reference_start).next trivial
  refine ⟨deltas_complete hasked (by decide +kernel) ?_ (hstart.run hallowed) fun level => ?_,
    by decide +kernel⟩
  · intro side
    cases side <;> decide +kernel
  · apply (level.visibleOn_le _).trans_lt
    decide +kernel

end Reference
end AppState
end OptionChainBackend
