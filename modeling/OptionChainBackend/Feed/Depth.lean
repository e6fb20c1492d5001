import OptionChainBackend.Api.Marks
import OptionChainBackend.Feed.Levels
import OptionChainBackend.Upstream.Reference

/-!
What a subscriber to an order book reads: the best levels of each side of the book its symbol
leads to.
-/
namespace OptionChainBackend
open Foundation Foundation.Decimal Upstream MarketMaker Exchange

structure PriceLevelData where
  price : ℕ
  quantity : ℕ
  deriving DecidableEq, Repr

/-- `create_snapshot` to a depth. -/
class Leveled (B : Type) where
  /-- The best levels of a side, each with its visible quantity. -/
  levels : B → ℕ → Side → List PriceLevelData

/-- The levels listed have the quantity that rests there, and a list shorter than the depth asked
for leaves no level out. -/
class LawfulLeveled (B : Type) [Upstream B] [Leveled B] : Prop where
  quantity : ∀ (b : B) depth side l, l ∈ Leveled.levels b depth side →
    l.quantity = Level.quantityOn ⟨side, l.price⟩ b
  complete : ∀ (b : B) depth side, (Leveled.levels b depth side).length < depth →
    ∀ o ∈ Upstream.orders b, o.side = side → ∃ l ∈ Leveled.levels b depth side, l.price = o.price

/-- A level that a list short of its depth does not show is empty. -/
theorem Level.quantityOn_of_not_listed {B : Type} [Upstream B] [Leveled B] [LawfulLeveled B] {b : B}
    {depth : ℕ} {level : Level} (hshort : (Leveled.levels b depth level.side).length < depth)
    (hnone : ∀ l ∈ Leveled.levels b depth level.side, l.price ≠ level.price) :
    level.quantityOn b = 0 := by
  have hempty : (Upstream.orders b).filter
      (fun o => o.price = level.price ∧ o.side = level.side) = [] := by
    rw [List.filter_eq_nil_iff]
    intro o ho hlevel
    obtain ⟨hprice, hside⟩ := of_decide_eq_true hlevel
    obtain ⟨l, hl, hlp⟩ := LawfulLeveled.complete b _ _ hshort o ho hside
    exact hnone l hl (hlp.trans hprice)
  unfold Level.quantityOn
  rw [hempty]
  rfl

namespace ReferenceBook

def bestFirst (side : Side) (p p' : ℕ) : Prop :=
  match side with
  | .buy => p' ≤ p
  | .sell => p ≤ p'

instance (side : Side) : DecidableRel (bestFirst side) := fun p p' => by
  unfold bestFirst
  split <;> infer_instance

/-- The prices of a side, the best first. -/
def prices (b : ReferenceBook) (side : Side) : List ℕ :=
  ((b.orders.filter fun o => o.side = side).map RestingOrder.price).eraseDups.insertionSort
    (bestFirst side)

instance : Leveled ReferenceBook where
  levels b depth side := ((b.prices side).take depth).map fun p => ⟨p, Level.quantityOn ⟨side, p⟩ b⟩

instance : LawfulLeveled ReferenceBook where
  quantity b depth side l hl := by
    obtain ⟨p, -, rfl⟩ := List.mem_map.mp hl
    rfl
  complete b depth side hlen o ho hside := by
    have hshort : (b.prices side).length ≤ depth := by
      change (((b.prices side).take depth).map _).length < depth at hlen
      rw [List.length_map, List.length_take] at hlen
      omega
    have hmem : o.price ∈ b.prices side := by
      unfold prices
      rw [List.mem_insertionSort, List.mem_eraseDups, List.mem_map]
      exact ⟨o, List.mem_filter.mpr ⟨ho, decide_eq_true hside⟩, rfl⟩
    refine ⟨⟨o.price, Level.quantityOn ⟨side, o.price⟩ b⟩, List.mem_map.mpr ⟨o.price, ?_, rfl⟩, rfl⟩
    rw [List.take_of_length_le hshort]
    exact hmem

end ReferenceBook

namespace Websocket
variable {B : Type} [Upstream B]

/-- A day count, as `find_expiration_by_str` of the subscriptions takes it. -/
def structural (expStr : String) : Option ExpirationDate :=
  if expStr.toList.length = 8 ∧ expStr.toList.all Char.isDigit then none
  else match parseI32 expStr with
    | some days =>
      if 0 < days ∧ days ≤ maxExpirationDays then some (.days days.toNat) else none
    | none => none

/-- `find_expiration_by_str` of the subscriptions: the first match of either kind. -/
def findExpirationByStr (x : Exchange B) (underlying expStr : String) : Option ExpirationDate :=
  (x.expirations underlying).find? fun e =>
    formatExpiration B x.now e = expStr ∨ structural expStr = some e

/-- The book whose snapshot a subscriber to `symbol` gets. -/
def snapshotBook (x : Exchange B) (symbol : String) : Option OptionAddr :=
  match symbolParts symbol with
  | underlying :: expStr :: strikeStr :: styleStr :: _ =>
    let u := String.ofList underlying
    match parseU64 strikeStr, symbolStyle (String.ofList styleStr) with
    | some strike, some style =>
      if x.get u then
        (findExpirationByStr x u (String.ofList expStr)).bind fun e =>
          if x.getExpiration u e && x.getStrike u e strike then some ⟨u, e, strike, style⟩ else none
      else none
    | _, _ => none
  | _ => none

end Websocket

end OptionChainBackend
