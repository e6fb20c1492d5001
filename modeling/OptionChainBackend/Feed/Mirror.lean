import OptionChainBackend.Api.CancelAll
import OptionChainBackend.Api.Prices
import OptionChainBackend.Feed.Depth
import OptionChainBackend.Foundation.Replica

/-!
A client's copy of one book: the levels of a snapshot, overwritten by the deltas published under
the symbol of the book. A request that publishes every level it changed keeps the copy exact.
-/
namespace OptionChainBackend
open Foundation Upstream MarketMaker Exchange

/-- The side that a delta names. -/
def namedSide (side : String) : Option Side :=
  if side = "bid" then some .buy else if side = "ask" then some .sell else none

/-- What the delta says of the book with this symbol. -/
def OrderbookDeltaEvent.notice (symbol : String) (d : OrderbookDeltaEvent) : Option (Level × ℕ) :=
  if d.symbol = symbol then
    (namedSide d.change.side).map fun side => (⟨side, d.change.price⟩, d.change.quantity)
  else none

/-- Every level of a snapshot to this depth. -/
def Level.listing {B : Type} [Leveled B] (b : B) (depth : ℕ) : List (Level × ℕ) :=
  [Side.buy, Side.sell].flatMap fun side =>
    (Leveled.levels b depth side).map fun l => (⟨side, l.price⟩, l.quantity)

/-- The snapshot leaves no level out. -/
def FullDepth {B : Type} [Leveled B] (b : B) (depth : ℕ) : Prop :=
  ∀ side, (Leveled.levels b depth side).length < depth

/-- `seen` deltas had been published when the client read the book. -/
structure Client where
  symbol : String
  seen : ℕ
  opened : Table Level ℕ

namespace Client
variable {B F : Type} [Upstream B]

/-- The levels as the client holds them. -/
def copy (c : Client) (deltas : List OrderbookDeltaEvent) : Table Level ℕ :=
  c.opened.putAll ((deltas.drop c.seen).filterMap (OrderbookDeltaEvent.notice c.symbol))

/-- A client that reads the book on `a` now. -/
def follow [Leveled B] (s : AppState B F) (a : OptionAddr) (depth : ℕ) : Client :=
  ⟨s.market.symbols a, s.deltas.length, Table.putAll ∅ (Level.listing (s.market.books a) depth)⟩

end Client

section Opening
variable {B : Type} [Upstream B] [LawfulUpstream B] [Leveled B] [LawfulLeveled B] {b : B}
  {depth : ℕ}

omit [LawfulUpstream B] in
theorem Level.quantityOn_unlisted (hfull : FullDepth b depth) {level : Level}
    (h : level ∉ (Level.listing b depth).map Prod.fst) : level.quantityOn b = 0 := by
  apply Level.quantityOn_of_not_listed (hfull level.side)
  intro l hl hprice
  apply h
  simp only [Level.listing, List.map_flatMap, List.mem_flatMap, List.map_map, List.mem_map]
  exact ⟨level.side, by cases level.side <;> simp, l, hl, by simp [hprice]⟩

omit [LawfulUpstream B] in
/-- A full snapshot is a replica of the book. -/
theorem listing_replicates (hfull : FullDepth b depth) :
    (Table.putAll ∅ (Level.listing b depth)).Replicates fun level => level.quantityOn b := by
  apply Table.Replicates.empty.told
  · intro e he
    simp only [Level.listing, List.mem_flatMap, List.mem_map] at he
    obtain ⟨side, -, l, hl, rfl⟩ := he
    exact LawfulLeveled.quantity b depth side l hl
  · intro level hlevel
    exact Level.quantityOn_unlisted hfull hlevel

end Opening

section Notices
variable {B : Type} [Upstream B] (x : Exchange B) (b : OptionAddr) (symbol : String)

theorem namedSide_restingSideStr (side : Side) :
    namedSide (Subscriptions.restingSideStr side) = some side := by
  cases side <;> rfl

/-- What a client of `symbol` hears when levels of book `b` are published. -/
theorem publish_notices (levels : List Level) (f : Subscriptions) :
    ∃ ds, (levels.foldl (fun f level => f.publish x b level) f).deltas = f.deltas ++ ds ∧
      ds.filterMap (OrderbookDeltaEvent.notice symbol) =
        if x.symbols b = symbol then levels.map fun level => (level, x.levelQuantity b level)
        else [] := by
  induction levels generalizing f with
  | nil => exact ⟨[], (List.append_nil _).symm, by simp⟩
  | cons level levels ih =>
    obtain ⟨ds, hds, hnotices⟩ := ih (f.publish x b level)
    let d := Subscriptions.buildLevelDelta (x.symbols b) level.side level.price
      (x.levelQuantity b level) (f.nextSequence (x.symbols b)).1
    have hd : d.notice symbol =
        if x.symbols b = symbol then some (level, x.levelQuantity b level) else none := by
      show (if x.symbols b = symbol then
        (namedSide (Subscriptions.restingSideStr level.side)).map _ else none) = _
      rw [namedSide_restingSideStr]
      rfl
    refine ⟨d :: ds, ?_, ?_⟩
    · rw [List.foldl_cons, hds]
      show (f.deltas ++ [d]) ++ ds = _
      simp
    · rw [List.filterMap_cons, hd, hnotices]
      split_ifs <;> rfl

end Notices

namespace AppState
variable {B F : Type} [Upstream B] {s s' : AppState B F} {a b : OptionAddr} {c : Client}
  {levels : List Level}

/-- Book `b` changed at the given levels at most, and these were published afterwards. -/
structure Retells (s s' : AppState B F) (b : OptionAddr) (levels : List Level) : Prop where
  books : Grows s.market s'.market
  symbols : ∀ c, s.market.hasBook c = true → s'.market.symbols c = s.market.symbols c
  same : ∀ level, level ∉ levels →
    s'.market.levelQuantity b level = s.market.levelQuantity b level
  others : ∀ c, c ≠ b → ∀ level, s'.market.levelQuantity c level = s.market.levelQuantity c level
  deltas : ∃ f : Subscriptions, f.deltas = s.deltas ∧
    s'.deltas = (levels.foldl (fun f level => f.publish s'.market b level) f).deltas

/-- The client's copy of book `a` is the book as it is. -/
structure Copied (c : Client) (a : OptionAddr) (s : AppState B F) : Prop where
  seen : c.seen ≤ s.deltas.length
  book : s.market.hasBook a = true
  symbol : s.market.symbols a = c.symbol
  copy : (c.copy s.deltas).Replicates (s.market.levelQuantity a)

/-- A delta of book `b` is one of the client's book or under another symbol. -/
def Apart (c : Client) (a : OptionAddr) (x : Exchange B) (b : OptionAddr) : Prop :=
  b = a ∨ x.symbols b ≠ c.symbol

omit [Upstream B] in
theorem Apart.of_symbol {x x' : Exchange B} (h : Apart c a x b)
    (hsym : x'.symbols b = x.symbols b) : Apart c a x' b :=
  h.imp_right fun hne heq => hne (hsym.symm.trans heq)

/-- Neither the levels of the book nor the deltas sent are others. -/
theorem Copied.hold (h : Copied c a s) (hb : Grows s.market s'.market)
    (hsym : s'.market.symbols a = s.market.symbols a)
    (hq : ∀ level, s'.market.levelQuantity a level = s.market.levelQuantity a level)
    (hd : s'.deltas = s.deltas) : Copied c a s' where
  seen := hd ▸ h.seen
  book := hb a h.book
  symbol := hsym.trans h.symbol
  copy := by
    rw [hd, funext hq]
    exact h.copy

theorem Copied.retold (h : Copied c a s) (hr : Retells s s' b levels)
    (hb : Apart c a s'.market b) : Copied c a s' := by
  have hsymbol : s'.market.symbols a = c.symbol := (hr.symbols a h.book).trans h.symbol
  obtain ⟨f, hf, hsent⟩ := hr.deltas
  obtain ⟨ds, hds, hnotices⟩ := publish_notices s'.market b c.symbol levels f
  have hdeltas : s'.deltas = s.deltas ++ ds := by rw [hsent, hds, hf]
  have hcopy : c.copy s'.deltas =
      (c.copy s.deltas).putAll (ds.filterMap (OrderbookDeltaEvent.notice c.symbol)) := by
    unfold Client.copy
    rw [hdeltas, List.drop_append_of_le_length h.seen, List.filterMap_append, Table.putAll_append]
  refine ⟨?_, hr.books a h.book, hsymbol, ?_⟩
  · have hseen := h.seen
    rw [hdeltas, List.length_append]
    omega
  · rw [hcopy, hnotices]
    by_cases hba : b = a
    · subst hba
      rw [if_pos hsymbol]
      apply h.copy.told
      · intro e he
        obtain ⟨level, -, rfl⟩ := List.mem_map.mp he
        rfl
      · intro level hlevel
        apply hr.same level
        intro hmem
        exact hlevel (by simpa using hmem)
    · rw [if_neg (hb.resolve_left hba)]
      apply h.copy.told
      · nofun
      · exact fun level _ => hr.others a (Ne.symm hba) level

/-- Nothing changes and nothing is published. -/
theorem Retells.idle [LawfulUpstream B] (hi : Idle s.market s'.market)
    (hsym : ∀ c, s.market.hasBook c = true → s'.market.symbols c = s.market.symbols c)
    (hd : s'.deltas = s.deltas) (b : OptionAddr) : Retells s s' b [] where
  books := hi.grows
  symbols := hsym
  same level _ := hi.toQuiet.same_level b level
  others c _ level := hi.toQuiet.same_level c level
  deltas := ⟨s.toSubscriptions, rfl, hd⟩

theorem Retells.idle_of_catalog [LawfulUpstream B] (hi : Idle s.market s'.market)
    (hcat : s'.market.toCatalog = s.market.toCatalog) (hd : s'.deltas = s.deltas)
    (b : OptionAddr) : Retells s s' b [] :=
  idle hi (fun c _ => congrArg (fun cat : Catalog => cat.symbols c) hcat) hd b

section Parts
variable [LawfulUpstream B] {x : Exchange B} {side : Side} {limit : Option ℕ} {q price : ℕ}
  {r : MatchResult} {left : Option RestingOrder} {id : OrderId}

theorem Retells.submitted (hs : Submitted s.market x b side limit q r left)
    (hm : s'.market = x)
    (hsym : ∀ c, s.market.hasBook c = true → x.symbols c = s.market.symbols c)
    (hsame : ∀ level, level ∉ levels → x.levelQuantity b level = s.market.levelQuantity b level)
    (hd : ∃ f : Subscriptions, f.deltas = s.deltas ∧
      s'.deltas = (levels.foldl (fun f level => f.publish x b level) f).deltas) :
    Retells s s' b levels := by
  subst hm
  exact ⟨hs.grows, hsym, hsame, fun c hc level => hs.filled.other_level hc level, hd⟩

/-- A cancelled order changes its level, which is published. -/
theorem Retells.cancelled (hc : Cancelled s.market x b id) (hm : s'.market = x)
    (hrests : ∀ o, s.market.getOrder b id = some o → o.side = side ∧ o.price = price)
    (hd : s'.deltas = (s.toSubscriptions.publish x b ⟨side, price⟩).deltas) :
    Retells s s' b [⟨side, price⟩] := by
  subst hm
  obtain ⟨o, ho⟩ := Option.isSome_iff_exists.mp hc.present
  obtain ⟨rfl, rfl⟩ := hrests o ho
  refine ⟨.of_eq hc.catalog, fun c _ => ?_, fun level hl => ?_, fun c hcb level => ?_, ?_⟩
  · rw [hc.catalog]
  · exact hc.same_level ho fun heq => hl (heq ▸ List.mem_singleton_self _)
  · exact hc.other_level hcb level
  · exact ⟨s.toSubscriptions, rfl, hd⟩

omit [LawfulUpstream B] in
theorem recordMatch_deltas (symbol underlying : String) (side : Side) (r : MatchResult) :
    (s.recordMatch symbol underlying side r).deltas = s.deltas := by
  unfold recordMatch
  split_ifs
  · exact (recordFills_events s symbol underlying side _).1
  · rfl

omit [LawfulUpstream B] in
/-- What follows an accepted limit order publishes its levels. -/
theorem reportLimit_deltas (symbol underlying : String) (b : OptionAddr) (side : Side)
    (price : ℕ) (r : MatchResult) : ∃ f : Subscriptions, f.deltas = s.deltas ∧
      (s.reportLimit symbol underlying b side price r).deltas =
        ((r.limitLevels side price).foldl (fun f level => f.publish s.market b level) f).deltas := by
  have hm := (recordMatch_reported (s := s) symbol underlying side r).market
  refine ⟨(s.recordMatch symbol underlying side r).toSubscriptions,
    recordMatch_deltas symbol underlying side r, ?_⟩
  unfold reportLimit
  rw [publishRest_levels, hm]

theorem submitLimit_retells (hg : s.Grounded) (expStr : String) (b : OptionAddr)
    (tif : TimeInForce) (body : AddOrderRequest) :
    ∃ levels, Retells s (s.submitLimit expStr b tif body).2 b levels := by
  have hcat := submitLimit_catalog s expStr b tif body
  have hsym : ∀ c, s.market.hasBook c = true →
      (s.submitLimit expStr b tif body).2.market.symbols c = s.market.symbols c := by
    intro c hc
    rw [hcat]
    exact openBook_symbols s.market b hc
  rcases submitLimit_cases hg.fresh expStr b tif body with ⟨x, he, hi⟩ | ⟨r, x, he, -, hs⟩
  · rw [he] at hsym ⊢
    refine ⟨[], ?_⟩
    apply Retells.idle hi hsym
    rfl
  · obtain ⟨hr, -⟩ := acceptLimit_recorded (s := s) (x := x) (a := b) expStr body
      s.market.nextOrderId hs.filled.matched.positive
    rw [he] at hsym ⊢
    rw [hr.market] at hsym
    exact ⟨_, .submitted hs hr.market hsym (fun level => hs.limit_level)
      (reportLimit_deltas (s := (s.withMarket x).track _) _ _ b body.side body.price r)⟩

theorem submitMarket_retells (hg : s.Grounded) (expStr : String) (b : OptionAddr)
    (body : MarketOrderRequest) :
    ∃ levels, Retells s (s.submitMarket expStr b body).2 b levels := by
  have hcat := submitMarket_catalog s expStr b body
  have hsym : ∀ c, s.market.hasBook c = true →
      (s.submitMarket expStr b body).2.market.symbols c = s.market.symbols c := by
    intro c hc
    rw [hcat]
    exact openBook_symbols s.market b hc
  rcases submitMarket_cases hg.fresh expStr b body with ⟨x, he, hi⟩ | ⟨r, x, he, -, hs⟩
  · rw [he] at hsym ⊢
    refine ⟨[], ?_⟩
    apply Retells.idle hi hsym
    rfl
  · obtain ⟨hr, -⟩ := acceptMarket_recorded (s := s) (x := x) (a := b) expStr body.side
      hs.filled.matched.positive
    rw [he] at hsym ⊢
    rw [hr.market] at hsym
    refine ⟨r.consumedLevels body.side, .submitted hs hr.market hsym
      (fun level hl => hs.filled.same_level hl nofun) ?_⟩
    let m := (s.withMarket x).recordMatch (symbolOf b.underlying expStr b.strike b.style)
      b.underlying body.side r
    have hm : m.market = x := (recordMatch_reported _ _ _ _).market
    refine ⟨m.toSubscriptions, recordMatch_deltas _ _ _ _, ?_⟩
    show (m.publishMatch b body.side r).deltas = _
    rw [publishMatch_levels, hm]

/-- A bulk item changes and publishes levels of the book it leads to, if it is accepted. -/
theorem submitSingleOrder_retells (hg : s.Grounded) (item : BulkOrderItem) (a : OptionAddr) :
    ∃ b levels, Retells s (s.submitSingleOrder item).2 b levels ∧
      (b = a ∨ (s.market.getOrCreate item.underlying).locate item.underlying item.expiration
        item.strike item.style = .ok b) := by
  have hsym : ∀ c, (s.market.placeItem item).2.symbols c = s.market.symbols c := by
    intro c
    rw [(placeItem_cases hg.fresh item).1]
    unfold getOrCreate
    split_ifs <;> rfl
  rcases submitSingleOrder_cases s item with ⟨e, hnone, he⟩ | ⟨b, r, hsome, he⟩
  · have hi := placeItem_refused hg.fresh hnone
    have hr : Retells s (s.withMarket (s.market.placeItem item).2) a [] := by
      apply Retells.idle hi fun c _ => hsym c
      rfl
    rw [he]
    exact ⟨a, [], hr, .inl rfl⟩
  · obtain ⟨hl, hs⟩ := placeItem_accepted hg.fresh hsome
    have hr : Retells s (s.acceptItem b item s.market.nextOrderId r (s.market.placeItem item).2) b
        (r.limitLevels item.side item.price) :=
      .submitted hs (acceptItem_market _ _) (fun c _ => hsym c) (fun level => hs.limit_level)
        (reportLimit_deltas (s := s.withMarket (s.market.placeItem item).2) _ _ b item.side
          item.price r)
    rw [he]
    exact ⟨b, _, hr, .inr hl⟩

theorem cancelAt_retells (b : OptionAddr) (id : OrderId) (key : String) :
    ∃ levels, Retells s (s.cancelAt b id key).2 b levels := by
  have hcat := cancelAt_catalog (s := s) b id key
  rcases cancelAt_cases (s := s) b id key with
    ⟨e, x, he, -, hi⟩ | ⟨x, he, -, hc⟩ | ⟨x, he, -, hi, -⟩
  · rw [he] at hcat ⊢
    refine ⟨[], ?_⟩
    apply Retells.idle_of_catalog hi hcat
    rfl
  · obtain ⟨o, ho⟩ := Option.isSome_iff_exists.mp hc.present
    rw [he, ho]
    refine ⟨[⟨o.side, o.price⟩], .cancelled hc rfl (fun o' ho' => ?_) rfl⟩
    obtain rfl := Option.some.inj (ho.symm.trans ho')
    exact ⟨rfl, rfl⟩
  · rw [he] at hcat ⊢
    refine ⟨[], ?_⟩
    apply Retells.idle_of_catalog hi hcat
    rfl

/-- The replacement of an order, when it meets nobody. -/
theorem placeReplacement_retells (hg : s.Grounded) (expStr key : String) (b : OptionAddr)
    (side : Side) (price q : ℕ) (huncrossed : ∀ i m, s.market.getOrder b i = some m →
      m.side = side.opposite → ¬ Crosses side (some price) m.price) :
    ∃ levels, Retells s (s.placeReplacement expStr key b side price q).2 b levels := by
  have hcat := placeReplacement_catalog (s := s) expStr key b side price q
  rcases placeReplacement_cases hg.fresh expStr key b side price q with
    ⟨x, he, hi⟩ | ⟨r, x, he, -, hs⟩
  · rw [he] at hcat ⊢
    refine ⟨[], ?_⟩
    apply Retells.idle_of_catalog hi hcat
    rfl
  · have hnone := hs.filled.matched.trades_eq_nil huncrossed
    rw [he] at hcat ⊢
    refine ⟨[⟨side, price⟩], .submitted hs rfl (fun c _ => ?_) (fun level hl => ?_) ?_⟩
    · exact congrArg (fun cat : Catalog => cat.symbols c) hcat
    · apply hs.limit_level
      intro hmem
      apply hl
      rw [MatchResult.limitLevels_untraded hnone hmem]
      exact List.mem_singleton_self _
    · exact ⟨s.toSubscriptions, rfl, rfl⟩

/-- A cancel through the stored strings of a record that gives the side and price of its order. -/
theorem cancelTracked_retells {i : OrderId} {o : OrderInfo}
    (ho : s.RestsAs i o.side o.price) (a : OptionAddr) :
    ∃ b levels, Retells s (s.cancelTracked (showOrderId B i) o).2 b levels ∧
      (b = a ∨ ∃ id, trackedTarget s.market (showOrderId B i) o = some (b, id)) := by
  rcases cancelTracked_cases (s := s) (showOrderId B i) o with
    ⟨e, x, he, hi, hcat, -⟩ | ⟨b, id, x, he, ht, hc⟩
  · have hr : Retells s (s.withMarket x) a [] := by
      apply Retells.idle_of_catalog hi hcat
      rfl
    rw [he]
    exact ⟨a, [], hr, .inl rfl⟩
  · obtain rfl := trackedTarget_id ht
    rw [he]
    exact ⟨b, _, .cancelled hc rfl (fun r hr => ho.resting b r hr) rfl, .inr ⟨_, ht⟩⟩

/-- The cancel of a rollback, of an order that rests as its item says. -/
theorem cancelBulkItemOrder_retells {item : BulkOrderItem} {i : OrderId}
    (ho : s.RestsAs i item.side item.price) (a : OptionAddr) :
    ∃ b levels, Retells s (s.cancelBulkItemOrder item i).2 b levels ∧
      (b = a ∨
        s.market.locate item.underlying item.expiration item.strike item.style = .ok b) := by
  rcases cancelBulkItemOrder_cases (s := s) item i with ⟨res, x, he, hi, hcat, -⟩ | ⟨b, x, he, hl, hc⟩
  · have hr : Retells s (s.withMarket x) a [] := by
      apply Retells.idle_of_catalog hi hcat
      rfl
    rw [he]
    exact ⟨a, [], hr, .inl rfl⟩
  · rw [he]
    exact ⟨b, _, .cancelled hc rfl (fun r hr => ho.resting b r hr) rfl, .inr hl⟩

end Parts
end AppState
end OptionChainBackend
