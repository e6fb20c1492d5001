import Mathlib.Algebra.Ring.Nat
import OptionChainBackend.MarketMaker.Calls

/-!
Fill accounting. Whatever fills are notified, in whatever order, the engine reports of each order
what was notified of it, up to the quantity it tracked, and forgets the order when that is used up.
-/
namespace OptionChainBackend
namespace MarketMaker
open Foundation Upstream

/-- The arguments of one `on_order_filled`. -/
structure FillNotice where
  id : OrderId
  fillPriceCents : ℕ
  quantity : ℕ
  deriving DecidableEq, Repr

/-- What the notices say was filled of order `i`. -/
def notified (notices : List FillNotice) (i : OrderId) : ℕ :=
  (notices.map fun n => if n.id = i then n.quantity else 0).sum

/-- What the event reports as filled of the order shown as `key`. -/
def MarketMakerEvent.filledQuantity {F : Type} (key : String) : MarketMakerEvent F → ℕ
  | .orderFilled orderId _ _ _ quantity _ _ => if orderId = key then quantity else 0
  | _ => 0

/-- What a row of events reports as filled of the order shown as `key`. -/
def reportedFilled {F : Type} (events : List (MarketMakerEvent F)) (key : String) : ℕ :=
  (events.map (·.filledQuantity key)).sum

/-- What is left of an order of which `q` was filled. -/
def ActiveOrderInfo.filledBy (o : ActiveOrderInfo) (q : ℕ) : Option ActiveOrderInfo :=
  if q < o.quantity then some { o with quantity := o.quantity - q } else none

/-- The quantity that is tracked, nothing for an order that is not. -/
def trackedQuantity (o : Option ActiveOrderInfo) : ℕ := o.elim 0 (·.quantity)

section Left
variable {o o' : ActiveOrderInfo} {q q' : ℕ}

theorem filledBy_zero (h : 0 < o.quantity) : o.filledBy 0 = some o := by
  simp [ActiveOrderInfo.filledBy, h]

/-- Filling twice is filling the sum. -/
theorem filledBy_bind (o : ActiveOrderInfo) (q q' : ℕ) :
    (o.filledBy q).bind (·.filledBy q') = o.filledBy (q + q') := by
  unfold ActiveOrderInfo.filledBy
  by_cases hq : q < o.quantity
  · rw [if_pos hq, Option.bind_some]
    by_cases hq' : q' < o.quantity - q
    · have hsum : q + q' < o.quantity := by omega
      rw [if_pos hq', if_pos hsum]
      simp only [Nat.sub_sub]
    · have hsum : ¬ q + q' < o.quantity := by omega
      rw [if_neg hq', if_neg hsum]
  · have hsum : ¬ q + q' < o.quantity := by omega
    rw [if_neg hq, if_neg hsum, Option.bind_none]

theorem filledBy_some (h : o.filledBy q = some o') : q < o.quantity ∧
    o' = { o with quantity := o.quantity - q } := by
  unfold ActiveOrderInfo.filledBy at h
  split_ifs at h with hq
  exact ⟨hq, (Option.some.inj h).symm⟩

theorem trackedQuantity_bind (x : Option ActiveOrderInfo) (q : ℕ) :
    trackedQuantity (x.bind (·.filledBy q)) = trackedQuantity x - q := by
  cases x with
  | none => simp [trackedQuantity]
  | some o =>
    simp only [Option.bind_some, trackedQuantity, ActiveOrderInfo.filledBy]
    split_ifs with hq
    · rfl
    · exact (Nat.sub_eq_zero_of_le (Nat.not_lt.mp hq)).symm

end Left

namespace MarketMakerEngine
variable {F : Type} {e : MarketMakerEngine F} (showId : OrderId → String) {i j : OrderId}
  {o : ActiveOrderInfo} {p q : ℕ}

/-- Every tracked order has some quantity left, and its slot of the index names it. -/
def WellTracked (e : MarketMakerEngine F) : Prop :=
  ∀ i o, e.activeOrders.lookup i = some o → 0 < o.quantity ∧ e.slotAt (position o) = some i

theorem onOrderFilled_idle (h : q = 0 ∨ e.activeOrders.lookup i = none) :
    e.onOrderFilled showId i p q = e := by
  rcases e.onOrderFilled_cases showId i p q with ⟨-, he⟩ | ⟨o, events, hq, ho, -⟩
  · exact he
  · rw [h.resolve_left hq] at ho
    cases ho

/-- A fill of a tracked order: the tracking update, and one event. -/
theorem onOrderFilled_eq (hq : q ≠ 0) (ho : e.activeOrders.lookup i = some o) (hp : p < 2 ^ 64) :
    ∃ event, event.filledQuantity = (fun key => if showId i = key then min q o.quantity else 0) ∧
      e.onOrderFilled showId i p q = (e.takeFill i o q).send event := by
  unfold onOrderFilled
  rw [if_neg hq, ho]
  dsimp only
  rw [if_pos hp]
  exact ⟨_, rfl, rfl⟩

theorem takeFill_lookup (i j : OrderId) (o : ActiveOrderInfo) (q : ℕ) :
    (e.takeFill i o q).activeOrders.lookup j =
      if j = i then o.filledBy q else e.activeOrders.lookup j := by
  rw [lookup_takeFill, ActiveOrderInfo.filledBy]
  by_cases hq : o.quantity ≤ q
  · have hnot : ¬ q < o.quantity := Nat.not_lt.mpr hq
    rw [if_pos hq, if_neg hnot]
  · have hlt : q < o.quantity := Nat.not_le.mp hq
    rw [if_neg hq, if_pos hlt]

theorem takeFill_slotAt (i : OrderId) (o : ActiveOrderInfo) (q : ℕ) :
    (e.takeFill i o q).slotAt =
      if o.quantity ≤ q then Function.update e.slotAt (position o) none else e.slotAt := by
  unfold takeFill
  split_ifs
  · exact clearInstrumentSlot_slotAt o
  · rfl

@[simp] theorem takeFill_events (i : OrderId) (o : ActiveOrderInfo) (q : ℕ) :
    (e.takeFill i o q).events = e.events := by
  unfold takeFill clearInstrumentSlot
  split_ifs
  · split <;> rfl
  · rfl

/-- One notice takes its quantity from the order it names. -/
theorem WellTracked.onOrderFilled_lookup (h : e.WellTracked) (hp : p < 2 ^ 64) (j : OrderId) :
    (e.onOrderFilled showId i p q).activeOrders.lookup j =
      (e.activeOrders.lookup j).bind (·.filledBy (if i = j then q else 0)) := by
  have hself : ∀ j, (e.activeOrders.lookup j).bind (·.filledBy 0) = e.activeOrders.lookup j := by
    intro j
    cases hj : e.activeOrders.lookup j with
    | none => rfl
    | some o => exact filledBy_zero (h j o hj).1
  by_cases hidle : q = 0 ∨ e.activeOrders.lookup i = none
  · rw [onOrderFilled_idle showId hidle]
    rcases hidle with rfl | hnone
    · simp only [ite_self, hself]
    · by_cases hij : i = j
      · rw [← hij, hnone]
        rfl
      · rw [if_neg hij, hself]
  · obtain ⟨hq, hsome⟩ := not_or.mp hidle
    obtain ⟨o, ho⟩ := Option.ne_none_iff_exists'.mp hsome
    obtain ⟨event, -, he⟩ := onOrderFilled_eq showId hq ho hp
    rw [he]
    show (e.takeFill i o q).activeOrders.lookup j = _
    rw [takeFill_lookup]
    by_cases hij : i = j
    · rw [if_pos hij.symm, if_pos hij, ← hij, ho]
      rfl
    · rw [if_neg (Ne.symm hij), if_neg hij, hself]

/-- What one notice reports. -/
theorem onOrderFilled_events (hshow : Function.Injective showId) (hp : p < 2 ^ 64) :
    ∃ events, (e.onOrderFilled showId i p q).events = e.events ++ events ∧
      ∀ j, reportedFilled events (showId j) =
        min (if i = j then q else 0) (trackedQuantity (e.activeOrders.lookup j)) := by
  by_cases hidle : q = 0 ∨ e.activeOrders.lookup i = none
  · rw [onOrderFilled_idle showId hidle]
    refine ⟨[], (List.append_nil _).symm, fun j => ?_⟩
    rcases hidle with rfl | hnone
    · simp [reportedFilled]
    · split_ifs with hij
      · subst hij
        simp [hnone, reportedFilled, trackedQuantity]
      · simp [reportedFilled]
  · obtain ⟨hq, hsome⟩ := not_or.mp hidle
    obtain ⟨o, ho⟩ := Option.ne_none_iff_exists'.mp hsome
    obtain ⟨event, hevent, he⟩ := onOrderFilled_eq showId hq ho hp
    refine ⟨[event], ?_, fun j => ?_⟩
    · rw [he]
      show (e.takeFill i o q).events ++ [event] = _
      rw [takeFill_events]
    · simp only [reportedFilled, List.map_cons, List.map_nil, List.sum_cons, List.sum_nil,
        Nat.add_zero]
      have hkey : event.filledQuantity (showId j) =
          if showId i = showId j then min q o.quantity else 0 := congrFun hevent (showId j)
      rw [hkey]
      by_cases hij : i = j
      · subst hij
        simp [ho, trackedQuantity]
      · simp [hij, hshow.ne hij]

/-- The slot of a tracked order names it as long as it is tracked. -/
theorem WellTracked.onOrderFilled_slotAt (h : e.WellTracked) (hp : p < 2 ^ 64) {k : OrderId}
    {o : ActiveOrderInfo} (ho : e.activeOrders.lookup k = some o) :
    (e.onOrderFilled showId i p q).slotAt (position o) =
      if ((e.onOrderFilled showId i p q).activeOrders.lookup k).isSome then some k else none := by
  obtain ⟨-, hat⟩ := h k o ho
  by_cases hidle : q = 0 ∨ e.activeOrders.lookup i = none
  · rw [onOrderFilled_idle showId hidle, ho, hat]
    rfl
  · obtain ⟨hq, hsome⟩ := not_or.mp hidle
    obtain ⟨filled, hfilled⟩ := Option.ne_none_iff_exists'.mp hsome
    obtain ⟨event, -, he⟩ := onOrderFilled_eq showId hq hfilled hp
    rw [he]
    show (e.takeFill i filled q).slotAt (position o) =
      if ((e.takeFill i filled q).activeOrders.lookup k).isSome then some k else none
    rw [takeFill_slotAt, takeFill_lookup]
    by_cases hki : k = i
    · subst hki
      obtain rfl : o = filled := Option.some.inj (ho.symm.trans hfilled)
      unfold ActiveOrderInfo.filledBy
      by_cases hfull : o.quantity ≤ q
      · simp [hfull, Nat.not_lt.mpr hfull]
      · simp [hfull, Nat.not_le.mp hfull, hat]
    · -- two tracked orders never stand at one position: its slot names each of them
      have hne : position o ≠ position filled := by
        intro hpos
        rw [hpos, (h i filled hfilled).2] at hat
        exact hki (Option.some.inj hat).symm
      rw [if_neg hki, ho, Option.isSome_some, if_pos rfl]
      split_ifs
      · rw [Function.update_of_ne hne, hat]
      · exact hat

theorem onOrderFilled_vacant (hp : p < 2 ^ 64) {pos : InstrumentKey × Fin 2}
    (h : e.slotAt pos = none) : (e.onOrderFilled showId i p q).slotAt pos = none := by
  by_cases hidle : q = 0 ∨ e.activeOrders.lookup i = none
  · rw [onOrderFilled_idle showId hidle]
    exact h
  · obtain ⟨hq, hsome⟩ := not_or.mp hidle
    obtain ⟨o, ho⟩ := Option.ne_none_iff_exists'.mp hsome
    obtain ⟨event, -, he⟩ := onOrderFilled_eq showId hq ho hp
    rw [he]
    show (e.takeFill i o q).slotAt pos = none
    rw [takeFill_slotAt]
    split_ifs
    · rw [Function.update_apply, h, ite_self]
    · exact h

theorem WellTracked.onOrderFilled (h : e.WellTracked) (hp : p < 2 ^ 64) :
    (e.onOrderFilled showId i p q).WellTracked := by
  intro k o' ho'
  have hold := h.onOrderFilled_lookup showId (i := i) (q := q) hp k
  rw [ho'] at hold
  obtain ⟨o, ho, hleft⟩ := Option.bind_eq_some_iff.mp hold.symm
  obtain ⟨hlt, rfl⟩ := filledBy_some hleft
  have hat := h.onOrderFilled_slotAt showId (i := i) (q := q) hp ho
  rw [ho', Option.isSome_some, if_pos rfl] at hat
  exact ⟨Nat.sub_pos_of_lt hlt, hat⟩

/-- A row of notices, one after the other. -/
def onOrdersFilled (showId : OrderId → String) (e : MarketMakerEngine F)
    (notices : List FillNotice) : MarketMakerEngine F :=
  notices.foldl (fun e n => e.onOrderFilled showId n.id n.fillPriceCents n.quantity) e

section Rows
variable {notices : List FillNotice}

theorem WellTracked.onOrdersFilled (h : e.WellTracked)
    (hp : ∀ n ∈ notices, n.fillPriceCents < 2 ^ 64) :
    (e.onOrdersFilled showId notices).WellTracked := by
  apply List.foldlRecOn (motive := WellTracked) notices _ h
  exact fun e' he n hn => he.onOrderFilled showId (hp n hn)

theorem notified_cons (n : FillNotice) (notices : List FillNotice) (j : OrderId) :
    notified (n :: notices) j = (if n.id = j then n.quantity else 0) + notified notices j := rfl

/-- The notices take together what each of them takes. -/
theorem WellTracked.onOrdersFilled_lookup (h : e.WellTracked)
    (hp : ∀ n ∈ notices, n.fillPriceCents < 2 ^ 64) (j : OrderId) :
    (e.onOrdersFilled showId notices).activeOrders.lookup j =
      (e.activeOrders.lookup j).bind (·.filledBy (notified notices j)) := by
  induction notices generalizing e with
  | nil =>
    show e.activeOrders.lookup j = (e.activeOrders.lookup j).bind (·.filledBy 0)
    cases hj : e.activeOrders.lookup j with
    | none => rfl
    | some o => exact (filledBy_zero (h j o hj).1).symm
  | cons n notices ih =>
    have hn : n.fillPriceCents < 2 ^ 64 := hp n List.mem_cons_self
    have hrest := ih (h.onOrderFilled showId (i := n.id) (q := n.quantity) hn)
      fun m hm => hp m (List.mem_cons_of_mem n hm)
    rw [h.onOrderFilled_lookup showId hn, Option.bind_assoc] at hrest
    simp only [filledBy_bind] at hrest
    exact hrest

/-- They report together what they take. -/
theorem WellTracked.onOrdersFilled_events (h : e.WellTracked) (hshow : Function.Injective showId)
    (hp : ∀ n ∈ notices, n.fillPriceCents < 2 ^ 64) :
    ∃ events, (e.onOrdersFilled showId notices).events = e.events ++ events ∧
      ∀ j, reportedFilled events (showId j) =
        min (notified notices j) (trackedQuantity (e.activeOrders.lookup j)) := by
  induction notices generalizing e with
  | nil => exact ⟨[], (List.append_nil _).symm, fun j => by simp [reportedFilled, notified]⟩
  | cons n notices ih =>
    have hn : n.fillPriceCents < 2 ^ 64 := hp n List.mem_cons_self
    obtain ⟨first, hfirst, hone⟩ :=
      onOrderFilled_events showId (e := e) (i := n.id) (q := n.quantity) hshow hn
    obtain ⟨rest, hrest, hall⟩ := ih (h.onOrderFilled showId (i := n.id)
      (q := n.quantity) hn) fun m hm => hp m (List.mem_cons_of_mem n hm)
    refine ⟨first ++ rest, ?_, fun j => ?_⟩
    · rw [hfirst, List.append_assoc] at hrest
      exact hrest
    · have hsum : reportedFilled (first ++ rest) (showId j) =
          reportedFilled first (showId j) + reportedFilled rest (showId j) := by
        simp [reportedFilled]
      rw [hsum, hone, hall, h.onOrderFilled_lookup showId hn, trackedQuantity_bind, notified_cons]
      omega

/-- The slot of a tracked order goes with it. -/
theorem WellTracked.onOrdersFilled_slotAt (h : e.WellTracked)
    (hp : ∀ n ∈ notices, n.fillPriceCents < 2 ^ 64) (ho : e.activeOrders.lookup j = some o) :
    (e.onOrdersFilled showId notices).slotAt (position o) =
      if ((e.onOrdersFilled showId notices).activeOrders.lookup j).isSome then some j else none := by
  induction notices generalizing e o with
  | nil =>
    show e.slotAt (position o) = if (e.activeOrders.lookup j).isSome then some j else none
    rw [ho, (h j o ho).2]
    rfl
  | cons n notices ih =>
    have hn : n.fillPriceCents < 2 ^ 64 := hp n List.mem_cons_self
    have hrest : ∀ m ∈ notices, m.fillPriceCents < 2 ^ 64 :=
      fun m hm => hp m (List.mem_cons_of_mem n hm)
    have hnext := h.onOrderFilled showId (i := n.id) (q := n.quantity) hn
    have hslot := h.onOrderFilled_slotAt showId (i := n.id) (q := n.quantity) hn ho
    let e₁ := e.onOrderFilled showId n.id n.fillPriceCents n.quantity
    show (e₁.onOrdersFilled showId notices).slotAt (position o) =
      if ((e₁.onOrdersFilled showId notices).activeOrders.lookup j).isSome then some j else none
    cases hj : e₁.activeOrders.lookup j with
    | some o' =>
      -- what is left of the order keeps its position
      have hold := h.onOrderFilled_lookup showId (i := n.id) (q := n.quantity) hn j
      rw [hj, ho] at hold
      obtain ⟨-, rfl⟩ := filledBy_some hold.symm
      have hlast := ih hnext hrest hj
      exact hlast
    | none =>
      rw [hj] at hslot
      rw [hnext.onOrdersFilled_lookup showId hrest, hj]
      apply List.foldlRecOn (motive := fun e : MarketMakerEngine F => e.slotAt (position o) = none)
        notices _ hslot
      exact fun e' he m hm => onOrderFilled_vacant showId (hrest m hm) he

end Rows
end MarketMakerEngine

namespace Desk
variable {B F : Type} [Upstream B] {d : Desk B F}

def onOrdersFilled (d : Desk B F) (notices : List FillNotice) : Desk B F :=
  notices.foldl (fun d n => d.onOrderFilled n.id n.fillPriceCents n.quantity) d

theorem onOrdersFilled_engine (d : Desk B F) (notices : List FillNotice) :
    (d.onOrdersFilled notices).engine = d.engine.onOrdersFilled (showOrderId B) notices := by
  induction notices generalizing d with
  | nil => rfl
  | cons n notices ih => exact ih (d.onOrderFilled n.id n.fillPriceCents n.quantity)

/-- The engine tracks no empty order. -/
def Stocked (d : Desk B F) : Prop :=
  ∀ i o, d.engine.activeOrders.lookup i = some o → 0 < o.quantity

theorem stocked_stepsKeep : StepsKeep (Stocked (B := B) (F := F)) where
  same d e he h i o ho := h i o (he ▸ ho)
  untrack d i h j o ho := by
    simp only [MarketMakerEngine.untrack, Table.lookup_erase_eq] at ho
    split_ifs at ho
    exact h j o ho
  fill d i o q ho hq h j o' ho' := by
    simp only [MarketMakerEngine.track, Table.lookup_insert_eq] at ho'
    split_ifs at ho'
    · obtain rfl := Option.some.inj ho'
      exact Nat.sub_pos_of_lt hq
    · exact h j o' ho'
  cancel d a i h := h
  leg d p o _ hpos h := by
    have hplace : (d.placeOnBook o.addr o.isBuy p o.quantity).2.engine = d.engine := by
      unfold placeOnBook
      dsimp only
      split <;> rfl
    unfold placeLeg
    split
    · rename_i i d' he
      rw [he] at hplace
      intro j o' ho'
      change d'.engine = d.engine at hplace
      simp only [MarketMakerEngine.track, hplace, Table.lookup_insert_eq] at ho'
      split_ifs at ho'
      · obtain rfl := Option.some.inj ho'
        exact hpos
      · exact h j o' ho'
    · rename_i d' he
      rw [he] at hplace
      intro j o' ho'
      change d'.engine = d.engine at hplace
      rw [hplace] at ho'
      exact h j o' ho'

variable [LawfulUpstream B]

/-- Over any row of fill notices, the engine reports of each tracked order what was notified of it,
at most the quantity it tracked. The order is tracked, with what is left of it, and its slot is
kept, until that much was notified. A notice of nothing or of an order that is not tracked is
ignored. -/
theorem fills_accounted (h : d.engine.WellTracked) {notices : List FillNotice}
    (hp : ∀ n ∈ notices, n.fillPriceCents < 2 ^ 64) :
    let d' := d.onOrdersFilled notices
    (∃ events, d'.engine.events = d.engine.events ++ events ∧
      ∀ i o, d.engine.activeOrders.lookup i = some o →
        reportedFilled events (showOrderId B i) = min o.quantity (notified notices i)) ∧
    (∀ i o, d.engine.activeOrders.lookup i = some o →
      if notified notices i < o.quantity then
        d'.engine.activeOrders.lookup i =
          some { o with quantity := o.quantity - notified notices i } ∧
        d'.engine.slotAt (position o) = some i
      else d'.engine.activeOrders.lookup i = none ∧ d'.engine.slotAt (position o) = none) ∧
    ∀ i price q, q = 0 ∨ d'.engine.activeOrders.lookup i = none →
      d'.onOrderFilled i price q = d' := by
  intro d'
  have hengine : d'.engine = d.engine.onOrdersFilled (showOrderId B) notices :=
    onOrdersFilled_engine d notices
  refine ⟨?_, fun i o ho => ?_, fun i price q hidle => ?_⟩
  · obtain ⟨events, hevents, hreported⟩ :=
      h.onOrdersFilled_events (showOrderId B) showOrderId_injective hp
    refine ⟨events, hengine ▸ hevents, fun i o ho => ?_⟩
    rw [hreported, ho]
    exact min_comm _ _
  · have hlookup := h.onOrdersFilled_lookup (showOrderId B) hp i
    have hslot := h.onOrdersFilled_slotAt (showOrderId B) hp ho
    rw [hlookup] at hslot
    rw [hengine, hslot, hlookup, ho, Option.bind_some]
    unfold ActiveOrderInfo.filledBy
    by_cases hlt : notified notices i < o.quantity
    · simp [hlt]
    · simp [hlt]
  · show { d' with engine := d'.engine.onOrderFilled (showOrderId B) i price q } = d'
    rw [MarketMakerEngine.onOrderFilled_idle _ hidle]

end Desk

namespace Session
variable {B F : Type} [Upstream B] [LawfulUpstream B] [F64 F] {s : Session B F}

/-- The engine tracks its orders well in every run. -/
theorem reaches_wellTracked (hc : CancelRemoves B) (h : Reaches Start step Honest s) :
    s.desk.engine.WellTracked := by
  have htidy : s.Tidy := reaches_tidy hc h
  have hstocked : s.desk.Stocked := by
    apply Reaches.invariant (P := fun s : Session B F => s.desk.Stocked) _ _ h
    · rintro s ⟨⟨quoter, he⟩, -⟩ i o ho
      rw [he] at ho
      cases ho
    · intro s i hs _
      cases i with
      | engine op => exact Desk.stocked_stepsKeep.operation hs op
      | books call => exact hs
  have hindexed : s.desk.engine.Indexed := Desk.Tidy.indexed htidy
  exact fun i o ho => ⟨hstocked i o ho, hindexed.agrees.index_eq ho⟩

end Session

section Reference

/-- The ask of 10 is filled by 4, by nothing, by 3, and by more than is left. -/
def askFills : List FillNotice :=
  [⟨1, 502, 4⟩, ⟨1, 502, 0⟩, ⟨0, 498, 2⟩, ⟨1, 502, 3⟩, ⟨1, 502, 8⟩]

theorem fills_accounted_ask :
    let d := (quotedSteps.foldl Session.step Session.reference).desk
    let d' := d.onOrdersFilled askFills
    (∃ events, d'.engine.events = d.engine.events ++ events ∧
      reportedFilled events (showOrderId ReferenceBook 1) = 7) ∧
    d'.engine.activeOrders.lookup 1 = none ∧
    (d'.engine.activeOrders.lookup 0).map ActiveOrderInfo.quantity = some 8 := by
  have hrun : Reaches Session.Start Session.step Session.Honest
      (quotedSteps.foldl Session.step Session.reference) :=
    (Reaches.start Session.reference_start).run (by decide +kernel)
  have htracked := Session.reaches_wellTracked ReferenceBook.cancelRemoves hrun
  have hprices : ∀ n ∈ askFills, n.fillPriceCents < 2 ^ 64 := by decide +kernel
  obtain ⟨⟨events, hevents, hreported⟩, hleft, -⟩ := Desk.fills_accounted htracked hprices
  have hask : ((quotedSteps.foldl Session.step Session.reference).desk.engine.activeOrders.lookup
      1).map ActiveOrderInfo.quantity = some 7 := by decide +kernel
  obtain ⟨o, ho, hquantity⟩ := Option.map_eq_some_iff.mp hask
  refine ⟨⟨events, hevents, ?_⟩, ?_, by decide +kernel⟩
  · rw [hreported 1 o ho, hquantity]
    decide
  · have hgone := hleft 1 o ho
    rw [hquantity] at hgone
    rw [if_neg (by decide)] at hgone
    exact hgone.1

end Reference
end MarketMaker
end OptionChainBackend
