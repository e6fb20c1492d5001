import OptionChainBackend.Api.Grounded
import OptionChainBackend.Api.Positions
import OptionChainBackend.MarketMaker.Fills
import OptionChainBackend.MarketMaker.QuoteSafety

/-!
The edge reported with a fill. Theoretical value and fill price are unsigned, and each is read as
a signed number before they are subtracted; the readings keep their distance exactly when both stay
below `2^63` or neither does.
-/
namespace OptionChainBackend
namespace MarketMaker
open Foundation

/-- What a contract gained against its theoretical value. -/
def exactEdge (fillPriceCents theoCents : ℕ) (isBuy : Bool) : ℤ :=
  if isBuy then theoCents - fillPriceCents else fillPriceCents - theoCents

/-- `calculate_edge` in a build that checks for overflow. There is none where it panics. -/
def edgeChecked (fillPriceCents theoCents : ℕ) (isBuy : Bool) : Option ℤ :=
  let edge := if isBuy then i64 theoCents - i64 fillPriceCents
    else i64 fillPriceCents - i64 theoCents
  if i64Min ≤ edge ∧ edge ≤ i64Max then some edge else none

/-- The fill is strictly better than the theoretical value. -/
def BetterThanTheo (fillPriceCents theoCents : ℕ) (isBuy : Bool) : Prop :=
  if isBuy then fillPriceCents < theoCents else theoCents < fillPriceCents

/-- The edge is computed without overflow, exact as far as the type reaches, and a gain exactly
when the fill was one. -/
structure HonestEdge (fillPriceCents theoCents : ℕ) (isBuy : Bool) (edge : ℤ) : Prop where
  checked : edgeChecked fillPriceCents theoCents isBuy = some edge
  exact : edge = clampI64 (exactEdge fillPriceCents theoCents isBuy)
  gain : 0 < edge ↔ BetterThanTheo fillPriceCents theoCents isBuy

section Edge
variable {price theo n : ℕ} {isBuy : Bool}

theorem i64_low (h : n < 2 ^ 63) : i64 n = n := by
  apply Int.bmod_eq_of_le <;> omega

theorem i64_high (h : 2 ^ 63 ≤ n) (hn : n < 2 ^ 64) : i64 n = n - 2 ^ 64 := by
  have hshift : i64 ((n : ℤ) - 2 ^ 64) = i64 n := Int.sub_bmod_right n (2 ^ 64)
  rw [← hshift]
  apply Int.bmod_eq_of_le <;> omega

theorem i64_of_mem {z : ℤ} (h : i64Min ≤ z ∧ z ≤ i64Max) : i64 z = z := by
  unfold i64Min i64Max at h
  apply Int.bmod_eq_of_le <;> omega

/-- Two unsigned numbers are apart as their signed readings are, unless the readings part. -/
theorem signed_sub_iff {x y : ℕ} (hx : x < 2 ^ 64) (hy : y < 2 ^ 64) :
    ((i64Min ≤ i64 x - i64 y ∧ i64 x - i64 y ≤ i64Max) ∧
      i64 x - i64 y = clampI64 (x - y) ∧ (0 < i64 x - i64 y ↔ y < x)) ↔
        (x < 2 ^ 63 ↔ y < 2 ^ 63) := by
  unfold clampI64 i64Min i64Max
  by_cases hxl : x < 2 ^ 63
  · by_cases hyl : y < 2 ^ 63
    · rw [i64_low hxl, i64_low hyl]
      omega
    · rw [i64_low hxl, i64_high (not_lt.mp hyl) hy]
      omega
  · by_cases hyl : y < 2 ^ 63
    · rw [i64_high (not_lt.mp hxl) hx, i64_low hyl]
      omega
    · rw [i64_high (not_lt.mp hxl) hx, i64_high (not_lt.mp hyl) hy]
      omega

/-- One side of a fill, whose contracts are worth `x` on one account and `y` on the other. -/
theorem wrapped_sub_iff {x y : ℕ} (hx : x < 2 ^ 64) (hy : y < 2 ^ 64) :
    ((if i64Min ≤ i64 x - i64 y ∧ i64 x - i64 y ≤ i64Max then some (i64 x - i64 y) else none) =
        some (i64 (i64 x - i64 y)) ∧
      i64 (i64 x - i64 y) = clampI64 (x - y) ∧ (0 < i64 (i64 x - i64 y) ↔ y < x)) ↔
        (x < 2 ^ 63 ↔ y < 2 ^ 63) := by
  rw [← signed_sub_iff hx hy]
  by_cases hin : i64Min ≤ i64 x - i64 y ∧ i64 x - i64 y ≤ i64Max
  · rw [if_pos hin, i64_of_mem hin]
    exact ⟨fun h => ⟨hin, h.2⟩, fun h => ⟨rfl, h.2⟩⟩
  · rw [if_neg hin]
    constructor
    · rintro ⟨h, -⟩
      cases h
    · exact fun h => absurd h.1 hin

theorem honestEdge_def {edge : ℤ} : HonestEdge price theo isBuy edge ↔
    edgeChecked price theo isBuy = some edge ∧ edge = clampI64 (exactEdge price theo isBuy) ∧
      (0 < edge ↔ BetterThanTheo price theo isBuy) :=
  ⟨fun h => ⟨h.checked, h.exact, h.gain⟩, fun h => ⟨h.1, h.2.1, h.2.2⟩⟩

/-- Where one reading changes its sign and the other does not, the subtraction overflows or its
value is wrong. -/
theorem honestEdge_iff (hp : price < 2 ^ 64) (ht : theo < 2 ^ 64) :
    HonestEdge price theo isBuy (calculateEdge price theo isBuy) ↔
      (theo < 2 ^ 63 ↔ price < 2 ^ 63) := by
  rw [honestEdge_def]
  unfold edgeChecked calculateEdge exactEdge BetterThanTheo
  cases isBuy with
  | true =>
    simp only [if_true]
    exact wrapped_sub_iff ht hp
  | false =>
    simp only [Bool.false_eq_true, if_false]
    rw [iff_comm (a := theo < 2 ^ 63)]
    exact wrapped_sub_iff hp ht

end Edge

section Fill
variable {F : Type} {e : MarketMakerEngine F} {showId : OrderId → String} {id : OrderId}
  {order : ActiveOrderInfo} {price quantity : ℕ}

/-- The fill is told to everyone, with an honest edge. -/
def ToldHonestly (e : MarketMakerEngine F) (showId : OrderId → String) (id : OrderId)
    (order : ActiveOrderInfo) (price quantity : ℕ) : Prop :=
  ∃ edge, (e.onOrderFilled showId id price quantity).events = e.events ++
      [.orderFilled (showId id) order.symbol order.instrument
        (if order.isBuy then "buy" else "sell") (min quantity order.quantity) price edge] ∧
    HonestEdge price order.theoCents order.isBuy edge

theorem onOrderFilled_events (showId : OrderId → String)
    (ho : e.activeOrders.lookup id = some order) (hq : 0 < quantity) (hp : price < 2 ^ 64) :
    (e.onOrderFilled showId id price quantity).events = e.events ++
      [.orderFilled (showId id) order.symbol order.instrument
        (if order.isBuy then "buy" else "sell") (min quantity order.quantity) price
        (calculateEdge price order.theoCents order.isBuy)] := by
  unfold MarketMakerEngine.onOrderFilled
  simp only [Nat.pos_iff_ne_zero.mp hq, if_false, ho, hp, if_true, MarketMakerEngine.send,
    MarketMakerEngine.takeFill_events]

/-- The edge told is the one calculated. -/
theorem toldHonestly_calculated (ho : e.activeOrders.lookup id = some order) (hq : 0 < quantity)
    (hp : price < 2 ^ 64) : ToldHonestly e showId id order price quantity ↔
      HonestEdge price order.theoCents order.isBuy
        (calculateEdge price order.theoCents order.isBuy) := by
  have hevents := onOrderFilled_events showId ho hq hp
  constructor
  · rintro ⟨edge, hedge, hhonest⟩
    rw [hevents] at hedge
    simp only [List.append_cancel_left_eq, List.cons.injEq, and_true,
      MarketMakerEvent.orderFilled.injEq, true_and] at hedge
    rw [hedge]
    exact hhonest
  · exact fun h => ⟨_, hevents, h⟩

theorem toldHonestly_iff (ho : e.activeOrders.lookup id = some order) (hq : 0 < quantity)
    (hp : price < 2 ^ 64) (ht : order.theoCents < 2 ^ 64) :
    ToldHonestly e showId id order price quantity ↔
      (order.theoCents < 2 ^ 63 ↔ price < 2 ^ 63) := by
  rw [toldHonestly_calculated ho hq hp]
  exact honestEdge_iff hp ht

end Fill

section Reference
open AppState Upstream

/-- The engine quotes a put at the largest strike. -/
def deepPut : AppState ReferenceBook ℚ :=
  [.createUnderlying "BTC", .createExpiration "BTC" "30", .createStrike "BTC" "30" (2 ^ 64 - 1),
    .engine (.updatePrice "BTC" 10000)].foldl step (.new intrinsic)

theorem deepPut_reached : Reaches Start step (fun _ _ => True) deepPut :=
  (Reaches.start ⟨_, rfl⟩).run ⟨trivial, trivial, trivial, trivial, trivial⟩

theorem deepPut_tracked : (deepPut.engine.activeOrders.lookup 3).map (fun o =>
    (o.theoCents, o.isBuy)) = some (2 ^ 64 - 10001, false) := by
  decide +kernel

theorem toldHonestly_deepPut : ∃ o, deepPut.engine.activeOrders.lookup 3 = some o ∧
    (ToldHonestly deepPut.engine toString 3 o (2 ^ 63) 1 ↔
      (o.theoCents < 2 ^ 63 ↔ 2 ^ 63 < 2 ^ 63)) := by
  obtain ⟨o, ho, hfields⟩ := Option.map_eq_some_iff.mp deepPut_tracked
  have htheo : o.theoCents = 2 ^ 64 - 10001 := (Prod.mk.inj hfields).1
  exact ⟨o, ho, toldHonestly_iff ho Nat.one_pos (by decide) (by omega)⟩

/-- Its ask, worth about `2^64` cents, is lifted for a two hundredth of that, and a gain is
reported. -/
theorem loss_told_as_gain : ¬ ∀ s : AppState ReferenceBook ℚ,
    Reaches Start step (fun _ _ => True) s → ∀ (showId : OrderId → String) id order price quantity,
      s.engine.activeOrders.lookup id = some order → 0 < quantity → price < 2 ^ 64 →
        ToldHonestly s.engine showId id order price quantity := by
  intro h
  obtain ⟨o, ho, hfields⟩ := Option.map_eq_some_iff.mp deepPut_tracked
  obtain ⟨htheo, hside⟩ := Prod.mk.inj hfields
  have hp : 92233720368537707 < 2 ^ 64 := by decide
  have htold := h _ deepPut_reached toString 3 o 92233720368537707 1 ho Nat.one_pos hp
  rw [toldHonestly_calculated ho Nat.one_pos hp, htheo, hside] at htold
  have hgain : calculateEdge 92233720368537707 (2 ^ 64 - 10001) false = 92233720368547708 := by
    decide +kernel
  have hexact := htold.exact
  rw [hgain] at hexact
  exact absurd hexact (by decide +kernel)

end Reference
end MarketMaker
end OptionChainBackend
