import OptionChainBackend.Foundation.SlotIndex
import OptionChainBackend.MarketMaker.Engine

/-! The reverse index of the engine: it names exactly the tracked orders, each in its slot. -/
namespace OptionChainBackend
namespace MarketMaker
open Foundation

theorem ExpKey.of_injective : Function.Injective ExpKey.of := by
  intro e e' h
  cases e with
  | days n =>
    cases e' with
    | days m => rw [ExpKey.days.inj h]
    | dateTime t => cases h
  | dateTime t =>
    cases e' with
    | days m => cases h
    | dateTime t' => rw [ExpKey.dateTime.inj h]

theorem InstrumentKey.new_injective : Function.Injective InstrumentKey.new := by
  rintro ⟨u, e, k, y⟩ ⟨u', e', k', y'⟩ h
  simp only [new, InstrumentKey.mk.injEq] at h
  obtain ⟨rfl, he, rfl, rfl⟩ := h
  rw [ExpKey.of_injective he]

theorem InstrumentKey.fromOrder_eq (o : ActiveOrderInfo) : fromOrder o = .new o.addr := rfl

@[simp] theorem legSlot_inj {b c : Bool} : legSlot b = legSlot c ↔ b = c := by
  cases b <;> cases c <;> decide

theorem Slots.isEmpty_iff (s : Slots) : s.isEmpty = true ↔ s = Slots.none := by
  unfold isEmpty
  rw [Bool.and_eq_true, Option.isNone_iff_eq_none, Option.isNone_iff_eq_none]
  constructor
  · rintro ⟨h0, h1⟩
    funext i
    match i with
    | 0 => exact h0
    | 1 => exact h1
  · rintro rfl
    exact ⟨rfl, rfl⟩

theorem Slots.mem_ids (s : Slots) (i : OrderId) : i ∈ s.ids ↔ ∃ b, s (legSlot b) = some i := by
  simp only [ids, List.mem_append, Option.mem_toList, Bool.exists_bool, legSlot, Bool.false_eq_true,
    if_false, if_true]
  exact Or.comm

/-- Where an order is recorded. -/
def position (o : ActiveOrderInfo) : InstrumentKey × Fin 2 := (.fromOrder o, legSlot o.isBuy)

namespace MarketMakerEngine
variable {F : Type} {e : MarketMakerEngine F} {i : OrderId} {o : ActiveOrderInfo}

/-- The id recorded at a position. -/
def slotAt (e : MarketMakerEngine F) (p : InstrumentKey × Fin 2) : Option OrderId := e.slots p.1 p.2

/-- No index entry has both slots empty. -/
def Occupied (e : MarketMakerEngine F) : Prop :=
  ∀ key slots, e.instrumentOrders.lookup key = some slots → slots.isEmpty = false

/-- The two maps of the engine are in step. -/
structure Indexed (e : MarketMakerEngine F) : Prop where
  agrees : Agrees e.activeOrders position e.slotAt
  occupied : e.Occupied

theorem new_indexed [F64 F] (quoter : Quoter F) : (new quoter).Indexed where
  agrees := Agrees.empty
  occupied key slots h := by simp [new] at h

theorem Indexed.congr {e' : MarketMakerEngine F} (h : e.Indexed)
    (ha : e'.activeOrders = e.activeOrders) (hi : e'.instrumentOrders = e.instrumentOrders) :
    e'.Indexed where
  agrees := by
    have hs : e'.slotAt = e.slotAt := by
      funext p
      simp only [slotAt, slots, hi]
    rw [ha, hs]
    exact h.agrees
  occupied key slots hk := h.occupied key slots (by rwa [← hi])

@[simp] theorem clearInstrumentSlot_activeOrders (key : InstrumentKey) (isBuy : Bool) :
    (e.clearInstrumentSlot key isBuy).activeOrders = e.activeOrders := by
  unfold clearInstrumentSlot
  split <;> rfl

@[simp] theorem clearInstrumentSlot_config (key : InstrumentKey) (isBuy : Bool) :
    (e.clearInstrumentSlot key isBuy).config = e.config := by
  unfold clearInstrumentSlot
  split <;> rfl

/-- An order is untracked together with its slot. -/
theorem forget_lookup (i j : OrderId) (key : InstrumentKey) (isBuy : Bool) :
    ((e.untrack i).clearInstrumentSlot key isBuy).activeOrders.lookup j =
      if j = i then none else e.activeOrders.lookup j := by
  rw [clearInstrumentSlot_activeOrders]
  simp [untrack]

theorem lookup_takeFill (i j : OrderId) (o : ActiveOrderInfo) (q : ℕ) :
    (e.takeFill i o q).activeOrders.lookup j =
      if j = i then
        if o.quantity ≤ q then none else some { o with quantity := o.quantity - q }
      else e.activeOrders.lookup j := by
  unfold takeFill
  by_cases hq : o.quantity ≤ q
  · rw [if_pos hq, if_pos hq, forget_lookup]
  · rw [if_neg hq, if_neg hq]
    simp [track]

/-- A report of nothing or of an unknown order does nothing; any other is taken, and told. -/
theorem onOrderFilled_cases (e : MarketMakerEngine F) (showId : OrderId → String) (i : OrderId)
    (price q : ℕ) :
    (q = 0 ∨ e.activeOrders.lookup i = none) ∧ e.onOrderFilled showId i price q = e ∨
    ∃ o events, q ≠ 0 ∧ e.activeOrders.lookup i = some o ∧
      e.onOrderFilled showId i price q = { e.takeFill i o q with events := events } := by
  unfold onOrderFilled
  by_cases hq : q = 0
  · rw [if_pos hq]
    exact .inl ⟨.inl hq, rfl⟩
  · rw [if_neg hq]
    cases hi : e.activeOrders.lookup i with
    | none => exact .inl ⟨.inr rfl, rfl⟩
    | some o =>
      dsimp only
      by_cases hp : price < 2 ^ 64
      · rw [if_pos hp]
        exact .inr ⟨o, _, hq, rfl, rfl⟩
      · rw [if_neg hp]
        exact .inr ⟨o, (e.takeFill i o q).events, hq, rfl, rfl⟩

theorem clearInstrumentSlot_slots (key k : InstrumentKey) (isBuy : Bool) :
    (e.clearInstrumentSlot key isBuy).slots k =
      if k = key then Function.update (e.slots key) (legSlot isBuy) none else e.slots k := by
  unfold clearInstrumentSlot
  cases h : e.instrumentOrders.lookup key with
  | none =>
    split_ifs with hk
    · subst hk
      simp [slots, h, Slots.none]
    · rfl
  | some s =>
    cases he : Slots.isEmpty (Function.update s (legSlot isBuy) none) with
    | true =>
      simp only [slots, he, if_true, Table.lookup_erase_eq]
      split_ifs with hk
      · simp [h, (Slots.isEmpty_iff _).mp he]
      · rfl
    | false =>
      simp only [slots, he, Bool.false_eq_true, if_false, Table.lookup_insert_eq]
      split_ifs with hk
      · simp [h]
      · rfl

theorem clearInstrumentSlot_slotAt (o : ActiveOrderInfo) :
    (e.clearInstrumentSlot (.fromOrder o) o.isBuy).slotAt =
      Function.update e.slotAt (position o) none := by
  funext ⟨k, s⟩
  rw [Function.update_apply]
  simp only [slotAt, clearInstrumentSlot_slots, position, Prod.mk.injEq]
  by_cases hk : k = .fromOrder o
  · subst hk
    simp [Function.update_apply]
  · simp [hk]

theorem Occupied.clear (h : e.Occupied) (key : InstrumentKey) (isBuy : Bool) :
    (e.clearInstrumentSlot key isBuy).Occupied := by
  intro k s hs
  unfold clearInstrumentSlot at hs
  cases hl : e.instrumentOrders.lookup key with
  | none =>
    rw [hl] at hs
    exact h k s hs
  | some s' =>
    simp only [hl] at hs
    split_ifs at hs with he
    · rw [Table.lookup_erase_eq] at hs
      split_ifs at hs
      exact h k s hs
    · rw [Table.lookup_insert_eq] at hs
      split_ifs at hs
      · rw [← Option.some.inj hs]
        simpa using he
      · exact h k s hs

/-- Untracking an order together with its slot keeps the maps in step. -/
theorem Indexed.forget (h : e.Indexed) (hi : e.activeOrders.lookup i = some o) :
    ((e.untrack i).clearInstrumentSlot (.fromOrder o) o.isBuy).Indexed where
  agrees := by
    have hs : (e.untrack i).slotAt = e.slotAt := rfl
    rw [clearInstrumentSlot_activeOrders, clearInstrumentSlot_slotAt, hs]
    exact h.agrees.erase hi
  occupied := by
    have hu : (e.untrack i).Occupied := h.occupied
    exact hu.clear _ _

/-- Reducing the tracked quantity moves nothing. -/
theorem Indexed.reduce (h : e.Indexed) (hi : e.activeOrders.lookup i = some o) (q : ℕ) :
    (e.track i { o with quantity := q }).Indexed where
  agrees := h.agrees.rewrite hi rfl
  occupied := h.occupied

theorem Indexed.send (h : e.Indexed) (event : MarketMakerEvent F) : (e.send event).Indexed :=
  h.congr rfl rfl

theorem Indexed.onOrderFilled (h : e.Indexed) (showId : OrderId → String) (i : OrderId)
    (price q : ℕ) : (e.onOrderFilled showId i price q).Indexed := by
  rcases e.onOrderFilled_cases showId i price q with ⟨-, he⟩ | ⟨o, events, -, hi, he⟩
  · rwa [he]
  · rw [he]
    have hkept : (e.takeFill i o q).Indexed := by
      unfold takeFill
      split_ifs
      · exact h.forget hi
      · exact h.reduce hi _
    exact hkept.congr rfl rfl

theorem foldl_untrack_instrumentOrders (ids : List OrderId) (e : MarketMakerEngine F) :
    (ids.foldl untrack e).instrumentOrders = e.instrumentOrders := by
  induction ids generalizing e with
  | nil => rfl
  | cons i ids ih => exact ih (e.untrack i)

theorem foldl_untrack_lookup (ids : List OrderId) (e : MarketMakerEngine F) (j : OrderId) :
    (ids.foldl untrack e).activeOrders.lookup j =
      if j ∈ ids then none else e.activeOrders.lookup j := by
  induction ids generalizing e with
  | nil => simp
  | cons i ids ih =>
    rw [List.foldl_cons, ih (e.untrack i)]
    by_cases hj : j ∈ ids
    · simp [hj]
    · by_cases hi : j = i <;> simp [hj, hi, untrack]

theorem Indexed.mem_slots_ids (h : e.Indexed) (key : InstrumentKey) (j : OrderId) :
    j ∈ (e.slots key).ids ↔
      ∃ o, e.activeOrders.lookup j = some o ∧ InstrumentKey.fromOrder o = key := by
  rw [Slots.mem_ids]
  constructor
  · rintro ⟨b, hb⟩
    obtain ⟨o, ho, hp⟩ := (h.agrees (key, legSlot b) j).mp hb
    exact ⟨o, ho, congrArg Prod.fst hp⟩
  · rintro ⟨o, ho, rfl⟩
    exact ⟨o.isBuy, (h.agrees (position o) j).mpr ⟨o, ho, rfl⟩⟩

/-- The engine without the orders of one instrument. -/
def dropEntry (e : MarketMakerEngine F) (key : InstrumentKey) : MarketMakerEngine F :=
  ((e.slots key).ids.foldl untrack e).removeEntry key

theorem dropEntry_lookup (key k : InstrumentKey) :
    (e.dropEntry key).instrumentOrders.lookup k =
      if k = key then none else e.instrumentOrders.lookup k := by
  simp [dropEntry, removeEntry, foldl_untrack_instrumentOrders]

theorem dropEntry_slots (key k : InstrumentKey) :
    (e.dropEntry key).slots k = if k = key then Slots.none else e.slots k := by
  unfold slots
  rw [dropEntry_lookup]
  split_ifs <;> rfl

theorem Indexed.dropEntry_active (h : e.Indexed) (key : InstrumentKey) (j : OrderId)
    (o : ActiveOrderInfo) : (e.dropEntry key).activeOrders.lookup j = some o ↔
      e.activeOrders.lookup j = some o ∧ InstrumentKey.fromOrder o ≠ key := by
  change ((e.slots key).ids.foldl untrack e).activeOrders.lookup j = some o ↔ _
  rw [foldl_untrack_lookup]
  split_ifs with hj
  · obtain ⟨o', ho', hk⟩ := (h.mem_slots_ids key j).mp hj
    simp only [false_iff, not_and, not_not]
    intro ho
    rw [ho'] at ho
    exact Option.some.inj ho ▸ hk
  · constructor
    · intro ho
      exact ⟨ho, fun hk => hj ((h.mem_slots_ids key j).mpr ⟨o, ho, hk⟩)⟩
    · exact And.left

theorem Indexed.dropEntry (h : e.Indexed) (key : InstrumentKey) : (e.dropEntry key).Indexed where
  agrees := by
    have hs : (e.dropEntry key).slotAt = fun p => if p.1 = key then none else e.slotAt p := by
      funext p
      simp only [slotAt, dropEntry_slots]
      split_ifs <;> rfl
    rw [hs]
    exact h.agrees.restrict (fun p => p.1 = key) (h.dropEntry_active key)
  occupied k s hk := by
    rw [dropEntry_lookup] at hk
    split_ifs at hk
    exact h.occupied k s hk

/-- In the middle of a requote of `key`: the legs in `placed` are tracked but not yet recorded. -/
structure Placing (e : MarketMakerEngine F) (key : InstrumentKey) (placed : Slots) : Prop where
  agrees : Agrees e.activeOrders position fun p => if p.1 = key then placed p.2 else e.slotAt p
  occupied : e.Occupied
  vacant : e.slots key = Slots.none

theorem Indexed.placing (h : e.Indexed) {key : InstrumentKey} (hk : e.slots key = Slots.none) :
    e.Placing key Slots.none where
  agrees := by
    have hs : (fun p : InstrumentKey × Fin 2 =>
        if p.1 = key then Slots.none p.2 else e.slotAt p) = e.slotAt := by
      funext p
      split_ifs with hp
      · simp only [slotAt, hp, hk]
      · rfl
    rw [hs]
    exact h.agrees
  occupied := h.occupied
  vacant := hk

theorem Placing.track {placed : Slots} (h : e.Placing (.fromOrder o) placed)
    (hi : e.activeOrders.lookup i = none) (hfree : placed (legSlot o.isBuy) = none) :
    (e.track i o).Placing (.fromOrder o)
      (Function.update placed (legSlot o.isBuy) (some i)) where
  agrees := by
    have hs : (fun p : InstrumentKey × Fin 2 => if p.1 = .fromOrder o then
        Function.update placed (legSlot o.isBuy) (some i) p.2 else (e.track i o).slotAt p) =
        Function.update (fun p => if p.1 = .fromOrder o then placed p.2 else e.slotAt p)
          (position o) (some i) := by
      funext ⟨k, s⟩
      rw [Function.update_apply, Function.update_apply]
      by_cases hk : k = .fromOrder o
      · simp [position, hk]
      · simp only [position, hk, if_false, Prod.mk.injEq, false_and]
        rfl
    rw [hs]
    apply h.agrees.insert hi
    simpa [position] using hfree
  occupied := h.occupied
  vacant := h.vacant

theorem Placing.recordLegs {key : InstrumentKey} {placed : Slots} (h : e.Placing key placed) :
    (e.recordLegs key placed).Indexed := by
  unfold MarketMakerEngine.recordLegs
  by_cases hp : placed.isEmpty = true
  · rw [if_pos hp]
    refine ⟨?_, h.occupied⟩
    have hs : (fun p : InstrumentKey × Fin 2 =>
        if p.1 = key then placed p.2 else e.slotAt p) = e.slotAt := by
      funext p
      split_ifs with hk
      · simp only [slotAt, hk, h.vacant, (Slots.isEmpty_iff placed).mp hp]
      · rfl
    exact hs ▸ h.agrees
  · rw [if_neg hp]
    constructor
    · have hs : slotAt { e with instrumentOrders := e.instrumentOrders.insert key placed } =
          fun p => if p.1 = key then placed p.2 else e.slotAt p := by
        funext p
        simp only [slotAt, slots, Table.lookup_insert_eq]
        split_ifs <;> rfl
      rw [hs]
      exact h.agrees
    · intro k s hk
      change AList.lookup k (e.instrumentOrders.insert key placed) = some s at hk
      rw [Table.lookup_insert_eq] at hk
      split_ifs at hk
      · rw [← Option.some.inj hk]
        simpa using hp
      · exact h.occupied k s hk

end MarketMakerEngine
end MarketMaker
end OptionChainBackend
