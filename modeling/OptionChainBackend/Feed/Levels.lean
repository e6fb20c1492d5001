import OptionChainBackend.Api.Effects

/-!
Price levels and the calls that change them. Every level a user's call changes is among the
levels its handler publishes afterwards.
-/
namespace OptionChainBackend
open Foundation Upstream MarketMaker Exchange

structure Level where
  side : Side
  price : ℕ
  deriving DecidableEq, Repr

/-- The quantity of the level on the book `b`. -/
def Level.quantityOn {B : Type} [Upstream B] (level : Level) (b : B) : ℕ :=
  (((Upstream.orders b).filter fun o => o.price = level.price ∧ o.side = level.side).map
    RestingOrder.visibleQuantity).foldl saturatingAddU64 0

namespace Exchange
variable {B : Type} [Upstream B] {x x' : Exchange B} {a : OptionAddr} {level : Level}

def levelQuantity (x : Exchange B) (a : OptionAddr) (level : Level) : ℕ :=
  Subscriptions.levelVisibleQuantity x a level.side level.price

theorem levelQuantity_eq (x : Exchange B) (a : OptionAddr) (level : Level) :
    x.levelQuantity a level = level.quantityOn (x.books a) := rfl

theorem saturatingAdd_foldl_perm {l l' : List ℕ} (h : l.Perm l') :
    l.foldl saturatingAddU64 0 = l'.foldl saturatingAddU64 0 := by
  have hcomm : RightCommutative saturatingAddU64 := ⟨fun a b c => by
    unfold saturatingAddU64
    omega⟩
  exact h.foldl_eq 0

/-- A level holds what it held when the same orders rest on it. -/
theorem levelQuantity_congr [LawfulUpstream B] (h : ∀ o : RestingOrder, o.side = level.side →
      o.price = level.price → (x'.getOrder a o.id = some o ↔ x.getOrder a o.id = some o)) :
    x'.levelQuantity a level = x.levelQuantity a level := by
  have hperm : (x'.getOrdersAtPrice a level.price level.side).Perm
      (x.getOrdersAtPrice a level.price level.side) := by
    apply (List.perm_ext_iff_of_nodup ((LawfulUpstream.orders_nodup _).filter _)
      ((LawfulUpstream.orders_nodup _).filter _)).mpr
    intro o
    simp only [List.mem_filter, LawfulUpstream.mem_orders, decide_eq_true_eq]
    constructor
    · exact fun ⟨ho, hp, hs⟩ => ⟨(h o hs hp).mp ho, hp, hs⟩
    · exact fun ⟨ho, hp, hs⟩ => ⟨(h o hs hp).mpr ho, hp, hs⟩
  unfold levelQuantity Subscriptions.levelVisibleQuantity
  exact saturatingAdd_foldl_perm (hperm.map _)

end Exchange

/-- The levels of the makers a taker on `side` consumed. -/
def MatchResult.consumedLevels (r : MatchResult) (side : Side) : List Level :=
  if 0 < r.executedQuantity then
    ((r.trades.map Trade.price).eraseDups).map fun price => ⟨side.opposite, price⟩
  else []

/-- The levels `add_order` publishes. -/
def MatchResult.limitLevels (r : MatchResult) (side : Side) (price : ℕ) : List Level :=
  r.consumedLevels side ++ if 0 < r.remainingQuantity then [⟨side, price⟩] else []

section Published
variable {B F : Type} [Upstream B] {s : AppState B F} {a : OptionAddr} {side : Side} {price : ℕ}
  {r : MatchResult}

def Subscriptions.publish (f : Subscriptions) (x : Exchange B) (a : OptionAddr) (level : Level) :
    Subscriptions := f.publishLevelDelta x a level.side level.price

theorem publishMatch_levels : (s.publishMatch a side r).toSubscriptions =
    (r.consumedLevels side).foldl (fun f level => f.publish s.market a level)
      s.toSubscriptions := by
  unfold AppState.publishMatch MatchResult.consumedLevels
  split_ifs
  · rw [List.foldl_map]
    rfl
  · rfl

/-- What follows a limit order publishes its levels, one after the other. -/
theorem publishRest_levels :
    ((s.publishMatch a side r).publishRest a side price r).toSubscriptions =
      (r.limitLevels side price).foldl (fun f level => f.publish s.market a level)
        s.toSubscriptions := by
  have hm : (s.publishMatch a side r).market = s.market :=
    (AppState.publishMatch_reported a side r).market
  unfold MatchResult.limitLevels
  rw [List.foldl_append, ← publishMatch_levels]
  unfold AppState.publishRest
  split_ifs
  · rw [List.foldl_cons, List.foldl_nil, ← hm]
    rfl
  · rfl

end Published

/-- The book call of a user's request. -/
inductive UserCall where
  | limit (side : Side) (price quantity : ℕ) (tif : TimeInForce)
  | market (side : Side) (quantity : ℕ)
  | cancel (id : OrderId)
  | replace (side : Side) (price quantity : ℕ)
  deriving DecidableEq, Repr

namespace UserCall
variable {B : Type} [Upstream B] {x : Exchange B} {a : OptionAddr} {level : Level}

/-- The books after the call on `a`, and the levels the handler publishes next. -/
def apply (x : Exchange B) (a : OptionAddr) : UserCall → Exchange B × List Level
  | .limit side price quantity tif =>
    let out := x.newOrderId.2.addLimitOrderWithTif a x.nextOrderId side price quantity tif
    (out.2, match out.1 with
      | .ok r => r.limitLevels side price
      | .error _ => [])
  | .market side quantity =>
    let out := x.newOrderId.2.submitMarketOrder a x.nextOrderId quantity side
    (out.2, match out.1 with
      | .ok r => r.consumedLevels side
      | .error _ => [])
  | .cancel id =>
    let out := x.cancelOrder a id
    (out.2, match out.1, x.getOrder a id with
      | .ok true, some o => [⟨o.side, o.price⟩]
      | _, _ => [])
  | .replace side price quantity =>
    let out := x.newOrderId.2.addLimitOrder a x.nextOrderId side price quantity
    (out.2, match out.1 with
      | .ok () => [⟨side, price⟩]
      | .error _ => [])

/-- The replacement of `modify_order` meets no maker: the levels of its makers would not be
published, a documented limitation. -/
def Uncrossed (x : Exchange B) (a : OptionAddr) : UserCall → Prop
  | .replace side price _ => ∀ i o, x.getOrder a i = some o → o.side = side.opposite →
    ¬ Crosses side (some price) o.price
  | _ => True

end UserCall

namespace MatchResult
variable {r : MatchResult} {side : Side} {price : ℕ} {level : Level}

theorem exists_of_makerFilled {ts : List Trade} {i : OrderId} (h : makerFilled ts i ≠ 0) :
    ∃ t ∈ ts, t.makerOrderId = i := by
  by_contra hnone
  apply h
  unfold makerFilled
  rw [List.filter_eq_nil_iff.mpr]
  · rfl
  · exact fun t ht hid => hnone ⟨t, ht, of_decide_eq_true hid⟩

theorem mem_consumedLevels {t : Trade} (hpos : ∀ t ∈ r.trades, 0 < t.quantity) (ht : t ∈ r.trades)
    (hside : level.side = side.opposite) (hprice : level.price = t.price) :
    level ∈ r.consumedLevels side := by
  have hexec : 0 < r.executedQuantity := (hpos t ht).trans_le
    (List.single_le_sum (by simp) _ (List.mem_map.mpr ⟨t, ht, rfl⟩))
  unfold MatchResult.consumedLevels
  rw [if_pos hexec]
  refine List.mem_map.mpr ⟨t.price, ?_, ?_⟩
  · exact List.mem_eraseDups.mpr (List.mem_map.mpr ⟨t, ht, rfl⟩)
  · rw [← hside, ← hprice]

/-- An order that meets nobody changes its own level only. -/
theorem limitLevels_untraded (h : r.trades = []) (hl : level ∈ r.limitLevels side price) :
    level = ⟨side, price⟩ := by
  simp only [limitLevels, consumedLevels, executedQuantity, h, List.map_nil, List.sum_nil,
    lt_irrefl, if_false, List.nil_append] at hl
  split_ifs at hl
  · exact List.mem_singleton.mp hl
  · cases hl

end MatchResult

namespace Exchange
variable {B : Type} [Upstream B] [LawfulUpstream B] {x x' : Exchange B} {a c : OptionAddr}
  {id : OrderId} {side : Side} {price q : ℕ} {limit : Option ℕ} {r : MatchResult}
  {left : Option RestingOrder} {level : Level}

theorem Quiet.same_level (h : Quiet x x') (c : OptionAddr) (level : Level) :
    x'.levelQuantity c level = x.levelQuantity c level :=
  levelQuantity_congr fun o _ _ => by rw [h.getOrder]

/-- A match changes the levels of its makers and the level the remainder rests on. -/
theorem Filled.same_level (h : Filled x.newOrderId.2 x' a id side limit q r left)
    (hm : level ∉ r.consumedLevels side)
    (hl : ∀ o, left = some o → o.side = level.side → o.price = level.price → False) :
    x'.levelQuantity a level = x.levelQuantity a level := by
  apply levelQuantity_congr
  intro o hside hprice
  rw [h.getOrder, if_pos rfl]
  have habs : x.getOrder a id = none := h.absent
  split_ifs with hid
  · rw [hid, habs]
    constructor
    · exact fun ho => (hl o ho hside hprice).elim
    · nofun
  · change ((x.getOrder a o.id).bind _) = some o ↔ _
    cases hj : x.getOrder a o.id with
    | none => simp
    | some o' =>
      rw [Option.bind_some]
      by_cases hz : makerFilled r.trades o.id = 0
      · rw [hz, RestingOrder.reduce_zero (LawfulUpstream.getOrder_pos _ _ _ hj)]
      · -- a maker stands on a consumed level, before and after
        obtain ⟨t, ht, hmaker⟩ := MatchResult.exists_of_makerFilled hz
        obtain ⟨m, hget, hs, hp, -⟩ := h.matched.makers t ht
        rw [hmaker] at hget
        obtain rfl : o' = m := Option.some.inj (hj.symm.trans hget)
        have hno : ¬ (o'.side = level.side ∧ o'.price = level.price) := by
          rintro ⟨hs', hp'⟩
          exact hm (MatchResult.mem_consumedLevels h.matched.positive ht (hs'.symm.trans hs)
            (hp'.symm.trans hp.symm))
        constructor
        · intro ho
          obtain ⟨-, heq⟩ := RestingOrder.reduce_some ho
          rw [heq] at hside hprice
          exact absurd ⟨hside, hprice⟩ hno
        · intro ho
          obtain rfl := Option.some.inj ho
          exact absurd ⟨hside, hprice⟩ hno

theorem Filled.other_level (h : Filled x.newOrderId.2 x' a id side limit q r left) (hc : c ≠ a)
    (level : Level) : x'.levelQuantity c level = x.levelQuantity c level := by
  apply levelQuantity_congr
  intro o _ _
  rw [h.getOrder, if_neg hc]
  rfl

/-- A limit order changes the levels its handler publishes. -/
theorem Submitted.limit_level {tif : TimeInForce}
    (h : Submitted x x' a side limit q r (rested x.nextOrderId side price tif r))
    (hl : level ∉ r.limitLevels side price) :
    x'.levelQuantity a level = x.levelQuantity a level := by
  simp only [MatchResult.limitLevels, List.mem_append, not_or] at hl
  apply h.filled.same_level hl.1
  intro o ho hside hprice
  unfold rested at ho
  split_ifs at ho with hrest
  obtain rfl := Option.some.inj ho
  rw [if_pos hrest.2, List.mem_singleton] at hl
  dsimp only at hside hprice
  exact hl.2 (by rw [hside, hprice])

/-- A cancel changes the level its order rested on. -/
theorem Cancelled.same_level (h : Cancelled x x' a id) {o : RestingOrder}
    (ho : x.getOrder a id = some o) (hl : level ≠ ⟨o.side, o.price⟩) :
    x'.levelQuantity a level = x.levelQuantity a level := by
  apply levelQuantity_congr
  intro o' hside hprice
  rw [h.getOrder]
  split_ifs with hid
  · obtain ⟨-, hid⟩ := hid
    rw [hid, ho]
    constructor
    · nofun
    · intro heq
      obtain rfl := Option.some.inj heq
      exact absurd (by rw [hside, hprice]) hl
  · rfl

theorem Cancelled.other_level (h : Cancelled x x' a id) (hc : c ≠ a) (level : Level) :
    x'.levelQuantity c level = x.levelQuantity c level := by
  apply levelQuantity_congr
  intro o _ _
  rw [h.getOrder, if_neg fun hca => hc hca.1]

end Exchange

namespace UserCall
variable {B : Type} [Upstream B] [LawfulUpstream B] {x : Exchange B} {a : OptionAddr}
  {level : Level}

/-- Every level the call changes is published by its handler. -/
theorem covers (hf : x.Fresh) (c : UserCall) (hc : c.Uncrossed x a)
    (h : level ∉ (c.apply x a).2) :
    (c.apply x a).1.levelQuantity a level = x.levelQuantity a level := by
  cases c with
  | limit side price q tif =>
    rcases addLimit_cases hf a side price q tif with ⟨e, x', he, hi⟩ | ⟨r, x', he, hs, -⟩
    · simp only [apply, he]
      exact hi.toQuiet.same_level a level
    · simp only [apply, he] at h ⊢
      exact hs.limit_level h
  | market side q =>
    rcases market_cases hf a side q with ⟨e, x', he, hi⟩ | ⟨r, x', he, hs⟩
    · simp only [apply, he]
      exact hi.toQuiet.same_level a level
    · simp only [apply, he] at h ⊢
      exact hs.filled.same_level h nofun
  | cancel id =>
    cases hc : x.cancelOrder a id with
    | mk res x' =>
      have hquiet : res ≠ .ok true → x'.levelQuantity a level = x.levelQuantity a level :=
        fun hres => (cancel_idle hc hres).toQuiet.same_level a level
      have hx : ((UserCall.cancel id).apply x a).1 = x' := by simp only [apply, hc]
      rw [hx]
      match res with
      | .error e => exact hquiet nofun
      | .ok false => exact hquiet nofun
      | .ok true =>
        have hcancel := cancel_cancelled hc
        obtain ⟨o, ho⟩ := Option.isSome_iff_exists.mp hcancel.present
        simp only [apply, hc, ho, List.mem_singleton] at h
        exact hcancel.same_level ho h
  | replace side price q =>
    rcases addLimit_cases hf a side price q .gtc with ⟨e, x', he, hi⟩ | ⟨r, x', he, hs, -⟩
    · simp only [apply, addLimitOrder, addLimitOrderFull, he]
      exact hi.toQuiet.same_level a level
    · simp only [apply, addLimitOrder, addLimitOrderFull, he, Except.map, List.mem_singleton] at h ⊢
      apply hs.limit_level
      exact fun hl => h (MatchResult.limitLevels_untraded (hs.filled.matched.trades_eq_nil hc) hl)

omit [LawfulUpstream B] in
/-- A user's call leaves the catalog alone and keeps the supply of ids ahead of those in use. -/
@[simp] theorem apply_catalog (c : UserCall) : (c.apply x a).1.toCatalog = x.toCatalog := by
  cases c <;> rfl

theorem apply_fresh (hf : x.Fresh) (c : UserCall) : (c.apply x a).1.Fresh := by
  cases c with
  | limit side price q tif =>
    rcases addLimit_cases hf a side price q tif with ⟨e, x', he, hi⟩ | ⟨r, x', he, hs, -⟩
    · simp only [apply, he]
      exact hf.quiet hi.toQuiet
    · simp only [apply, he]
      exact (hs.wanes hf).fresh
  | market side q =>
    rcases market_cases hf a side q with ⟨e, x', he, hi⟩ | ⟨r, x', he, hs⟩
    · simp only [apply, he]
      exact hf.quiet hi.toQuiet
    · simp only [apply, he]
      exact (hs.wanes hf).fresh
  | cancel id => exact (cancelOrder_wanes hf a id).fresh
  | replace side price q =>
    rcases addLimit_cases hf a side price q .gtc with ⟨e, x', he, hi⟩ | ⟨r, x', he, hs, -⟩
    · simp only [apply, addLimitOrder, addLimitOrderFull, he]
      exact hf.quiet hi.toQuiet
    · simp only [apply, addLimitOrder, addLimitOrderFull, he]
      exact (hs.wanes hf).fresh

end UserCall
end OptionChainBackend
