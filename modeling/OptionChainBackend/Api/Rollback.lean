import OptionChainBackend.Api.Batch

/-!
The rollback of an atomic batch. Every accepted order is cancelled where its item leads and its
outcome entered under its index; one induction on the accepted orders says what the whole pass
leaves on the books, in the tracking and in the table of outcomes.
-/
namespace OptionChainBackend
open Foundation Upstream MarketMaker

namespace Exchange
variable {B : Type} [Upstream B] {x x' x'' : Exchange B} {a : OptionAddr} {id : OrderId}
  {ids ids' : List OrderId}

/-- Orders of `ids` may have left the books; nothing else changed. -/
structure Cleared (x x' : Exchange B) (ids : List OrderId) : Prop where
  getOrder : ∀ c j, x'.getOrder c j = x.getOrder c j ∨ j ∈ ids ∧ x'.getOrder c j = none
  tape : x'.tape = x.tape
  home : x'.home = x.home
  catalog : x'.toCatalog = x.toCatalog
  now : x'.now = x.now

theorem Cleared.refl (x : Exchange B) : Cleared x x [] :=
  ⟨fun _ _ => .inl rfl, rfl, rfl, rfl, rfl⟩

theorem Cleared.trans (h : Cleared x x' ids) (h' : Cleared x' x'' ids') :
    Cleared x x'' (ids ++ ids') where
  getOrder c j := by
    rcases h'.getOrder c j with he' | ⟨hj, hn⟩
    · rcases h.getOrder c j with he | ⟨hj, hn⟩
      · exact .inl (he'.trans he)
      · exact .inr ⟨List.mem_append_left _ hj, he'.trans hn⟩
    · exact .inr ⟨List.mem_append_right _ hj, hn⟩
  tape := h'.tape.trans h.tape
  home := h'.home.trans h.home
  catalog := h'.catalog.trans h.catalog
  now := h'.now.trans h.now

theorem Idle.cleared (h : Idle x x') (hc : x'.toCatalog = x.toCatalog) (id : OrderId) :
    Cleared x x' [id] := ⟨fun c j => .inl (h.getOrder c j), h.tape, h.home, hc, h.now⟩

theorem Cancelled.cleared (h : Cancelled x x' a id) : Cleared x x' [id] where
  getOrder c j := by
    rw [h.getOrder]
    split_ifs with hcj
    · exact .inr ⟨by simp [hcj.2], rfl⟩
    · exact .inl rfl
  tape := h.tape
  home := h.home
  catalog := h.catalog
  now := h.now

theorem Cleared.absent (h : Cleared x x' ids) {c : OptionAddr} {j : OrderId}
    (hj : x.getOrder c j = none) : x'.getOrder c j = none := by
  rcases h.getOrder c j with he | ⟨-, hn⟩
  · exact he.trans hj
  · exact hn

end Exchange

/-- The record a rollback leaves under the key of an accepted order. -/
def AcceptedBulkOrder.reconciled (o : AcceptedBulkOrder) (cancel : Except String Bool) (now : ℕ)
    (info : Option OrderInfo) : Option OrderInfo :=
  if 0 < o.filledQuantity then info.map (.rolledBack o.filledQuantity cancel.toBool now)
  else if cancel.toBool then none
  else info

namespace AppState
open Exchange

variable {B F : Type} [Upstream B] {s : AppState B F} {item : BulkOrderItem}
  {items : List BulkOrderItem} {accepted : List AcceptedBulkOrder} {o : AcceptedBulkOrder}

theorem reconcile_orders (s : AppState B F) (o : AcceptedBulkOrder) (cancel : Except String Bool)
    (key : String) : (s.reconcile o cancel).orders.lookup key =
      if key = showOrderId B o.orderId then
        o.reconciled cancel s.market.now (s.orders.lookup key)
      else s.orders.lookup key := by
  unfold reconcile AcceptedBulkOrder.reconciled
  dsimp only
  by_cases hk : key = showOrderId B o.orderId
  · subst hk
    by_cases hf : 0 < o.filledQuantity
    · simp [hf]
    · cases cancel <;> simp [hf, untrack, Except.toBool]
  · by_cases hf : 0 < o.filledQuantity
    · simp [hf, hk]
    · cases cancel <;> simp [hf, hk, untrack]

section OneOrder
variable [LawfulUpstream B]

/-- What the rollback of one order does, given the answer of its cancel. -/
theorem rollbackOrder_spec (s : AppState B F) (item : BulkOrderItem) (o : AcceptedBulkOrder) :
    ∃ cancel, (s.rollbackOrder item o).1 = classify B o cancel ∧
      Cleared s.market (s.rollbackOrder item o).2.market [o.orderId] ∧
      (cancel.toBool = true → ∀ a, s.market.locate item.underlying item.expiration item.strike
        item.style = .ok a → (s.rollbackOrder item o).2.market.getOrder a o.orderId = none) ∧
      ∀ key, (s.rollbackOrder item o).2.orders.lookup key =
        if key = showOrderId B o.orderId then
          o.reconciled cancel s.market.now (s.orders.lookup key)
        else s.orders.lookup key := by
  have hmarket : ∀ (t : AppState B F) cancel, (t.reconcile o cancel).market = t.market := by
    intro t cancel
    unfold reconcile
    dsimp only
    split_ifs
    · rfl
    · cases cancel <;> rfl
  unfold rollbackOrder
  dsimp only
  rcases cancelBulkItemOrder_cases (s := s) item o.orderId with
    ⟨res, x, he, hidle, hcat, hgone⟩ | ⟨a, x, he, hl, hc⟩
  · rw [he]
    dsimp only
    refine ⟨res, rfl, ?_, fun hok a hl => ?_, fun key => ?_⟩
    · rw [hmarket]
      exact hidle.cleared hcat o.orderId
    · obtain ⟨-, a', hl', hnone⟩ := hgone hok
      obtain rfl : a = a' := Except.ok.inj (hl.symm.trans hl')
      rw [hmarket]
      exact (hidle.getOrder a o.orderId).trans hnone
    · rw [reconcile_orders, ← hidle.now]
      rfl
  · rw [he]
    dsimp only
    refine ⟨.ok true, rfl, ?_, fun _ a' hl' => ?_, fun key => ?_⟩
    · rw [hmarket]
      exact hc.cleared
    · obtain rfl : a' = a := Except.ok.inj (hl'.symm.trans hl)
      rw [hmarket]
      change x.getOrder a' o.orderId = none
      rw [hc.getOrder]
      simp
    · rw [reconcile_orders, ← hc.now]
      rfl

end OneOrder

section AllOrders

/-- The accepted orders of a batch: each stands for its own item and has its own id. -/
structure Indexed (items : List BulkOrderItem) (accepted : List AcceptedBulkOrder) : Prop where
  items : ∀ o ∈ accepted, ∃ item, items[o.index]? = some item
  indices : (accepted.map AcceptedBulkOrder.index).Nodup
  ids : (accepted.map AcceptedBulkOrder.orderId).Nodup

theorem Indexed.init (h : Indexed items (accepted ++ [o])) : Indexed items accepted where
  items o' ho' := h.items o' (List.mem_append_left _ ho')
  indices := (List.map_append ▸ h.indices).of_append_left
  ids := (List.map_append ▸ h.ids).of_append_left

theorem Indexed.last_index (h : Indexed items (accepted ++ [o])) {o' : AcceptedBulkOrder}
    (ho' : o' ∈ accepted) : o'.index ≠ o.index := by
  have hn := h.indices
  rw [List.map_append, List.nodup_append] at hn
  exact hn.2.2 _ (List.mem_map_of_mem ho') _ (by simp)

theorem Indexed.last_id (h : Indexed items (accepted ++ [o])) {o' : AcceptedBulkOrder}
    (ho' : o' ∈ accepted) : o'.orderId ≠ o.orderId := by
  have hn := h.ids
  rw [List.map_append, List.nodup_append] at hn
  exact hn.2.2 _ (List.mem_map_of_mem ho') _ (by simp)

/-- What the rollback of the `accepted` orders leaves behind, given the answers of the cancels. -/
structure RolledBack (s : AppState B F) (items : List BulkOrderItem)
    (accepted : List AcceptedBulkOrder) (answer : ℕ → Except String Bool)
    (out : Outcomes × AppState B F) : Prop where
  outcomes : ∀ i, out.1.lookup i =
    (accepted.find? fun o => o.index = i).map fun o => classify B o (answer o.index)
  values : (out.1.entries.map fun e => e.2).Perm
    (accepted.map fun o => classify B o (answer o.index))
  cleared : Cleared s.market out.2.market (accepted.map AcceptedBulkOrder.orderId)
  gone : ∀ o ∈ accepted, (answer o.index).toBool = true → ∀ item a, items[o.index]? = some item →
    s.market.locate item.underlying item.expiration item.strike item.style = .ok a →
    out.2.market.getOrder a o.orderId = none
  tracked : ∀ o ∈ accepted, out.2.orders.lookup (showOrderId B o.orderId) =
    o.reconciled (answer o.index) s.market.now (s.orders.lookup (showOrderId B o.orderId))
  others : ∀ key, (∀ o ∈ accepted, key ≠ showOrderId B o.orderId) →
    out.2.orders.lookup key = s.orders.lookup key

variable [LawfulUpstream B]

theorem RolledBack.next {answer : ℕ → Except String Bool} {out : Outcomes × AppState B F}
    (h : RolledBack s items accepted answer out) (hi : Indexed items (accepted ++ [o])) :
    ∃ answer, RolledBack s items (accepted ++ [o]) answer (rollbackNext items out o) := by
  obtain ⟨item, hitem⟩ := hi.items o (by simp)
  obtain ⟨cancel, hclass, hcleared, hgone, horders⟩ := rollbackOrder_spec out.2 item o
  have hnext : rollbackNext items out o =
      (out.1.insert o.index (classify B o cancel), (out.2.rollbackOrder item o).2) := by
    unfold rollbackNext
    rw [hitem, ← hclass]
  have hold : ∀ o' ∈ accepted, Function.update answer o.index cancel o'.index =
      answer o'.index := fun o' ho' => Function.update_of_ne (hi.last_index ho') _ _
  have hself : Function.update answer o.index cancel o.index = cancel := Function.update_self _ _ _
  have hkey : ∀ o' ∈ accepted, showOrderId B o'.orderId ≠ showOrderId B o.orderId := fun o' ho' he =>
    hi.last_id ho' (showOrderId_injective he)
  have hmap : (accepted ++ [o]).map (fun o' =>
      classify B o' (Function.update answer o.index cancel o'.index)) =
      (accepted.map fun o' => classify B o' (answer o'.index)) ++ [classify B o cancel] := by
    rw [List.map_append, List.map_singleton, hself]
    congr 1
    exact List.map_congr_left fun o' ho' => by rw [hold o' ho']
  have hfind : (accepted.find? fun o' => o'.index = o.index) = none := by
    rw [List.find?_eq_none]
    intro o' ho'
    simpa using hi.last_index ho'
  have hfree : o.index ∉ out.1 := by
    rw [← AList.lookup_eq_none, h.outcomes, hfind]
    rfl
  refine ⟨Function.update answer o.index cancel, ?_⟩
  rw [hnext]
  refine ⟨fun i => ?_, ?_, ?_, fun o' ho' => ?_, fun o' ho' => ?_, fun key hk => ?_⟩
  · rw [Table.lookup_insert_eq, List.find?_append]
    by_cases ho : i = o.index
    · subst ho
      simp [hfind]
    · rw [if_neg ho, h.outcomes]
      cases hf : accepted.find? fun o' => o'.index = i with
      | none => simp [Ne.symm ho]
      | some o' => simp [hold o' (List.mem_of_find?_eq_some hf)]
  · rw [hmap, AList.entries_insert_of_notMem hfree]
    exact ((h.values.cons _).trans (List.perm_append_singleton _ _).symm)
  · rw [List.map_append]
    exact h.cleared.trans hcleared
  · intro hok item' a hitem' hl
    rcases List.mem_append.mp ho' with ho' | ho'
    · rw [hold o' ho'] at hok
      exact hcleared.absent (h.gone o' ho' hok item' a hitem' hl)
    · obtain rfl := List.mem_singleton.mp ho'
      rw [hself] at hok
      obtain rfl : item = item' := Option.some.inj (hitem.symm.trans hitem')
      exact hgone hok a ((locate_congr h.cleared.catalog h.cleared.now).trans hl)
  · rw [horders]
    rcases List.mem_append.mp ho' with ho' | ho'
    · rw [if_neg (hkey o' ho'), hold o' ho']
      exact h.tracked o' ho'
    · obtain rfl := List.mem_singleton.mp ho'
      rw [if_pos rfl, hself, h.cleared.now, h.others _ fun o' ho' => (hkey o' ho').symm]
  · rw [horders, if_neg (hk o (by simp))]
    exact h.others key fun o' ho' => hk o' (List.mem_append_left _ ho')

theorem rollbackOrders_spec (s : AppState B F) (hi : Indexed items accepted) :
    ∃ answer, RolledBack s items accepted answer (s.rollbackOrders items accepted) := by
  induction accepted using List.reverseRecOn with
  | nil => exact ⟨fun _ => .ok true, fun i => rfl, .nil, .refl _, nofun, nofun, fun _ _ => rfl⟩
  | append_singleton accepted o ih =>
    obtain ⟨answer, h⟩ := ih hi.init
    have hstep : s.rollbackOrders items (accepted ++ [o]) =
        rollbackNext items (s.rollbackOrders items accepted) o := by
      simp [rollbackOrders]
    rw [hstep]
    exact h.next hi

end AllOrders
end AppState
end OptionChainBackend
