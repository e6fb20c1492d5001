import OptionChainBackend.Api.Grounded
import OptionChainBackend.Foundation.Turns

/-!
The submission loop of `bulk_submit_orders`: how its tallies add up, where it stops, and what it
leaves on the books. Everything is by induction on the batch, one item appended at a time.
-/
namespace OptionChainBackend
open Foundation Upstream MarketMaker

namespace Exchange
variable {B : Type} [Upstream B] {x x' : Exchange B} {a : OptionAddr}

/-- The items placed one after the other. -/
def placeItems (x : Exchange B) (items : List BulkOrderItem) : Exchange B :=
  items.foldl (fun x item => (x.placeItem item).2) x

theorem getOrCreate_locate {underlying expStr : String} {strike : ℕ} {style : OptionStyle}
    (h : x.locate underlying expStr strike style = .ok a) (u : String) :
    (x.getOrCreate u).locate underlying expStr strike style = .ok a := by
  obtain ⟨hfind, rfl, rfl, rfl, hbook⟩ := locate_ok h
  have hsame : (x.getOrCreate u).findExpirationByStr a.underlying expStr =
      x.findExpirationByStr a.underlying expStr := by
    unfold getOrCreate
    split_ifs <;> rfl
  apply locate_of_find
  · rw [hsame]
    exact hfind
  · exact getOrCreate_grows x u a hbook

variable [LawfulUpstream B]

theorem placeItem_now (hf : x.Fresh) (item : BulkOrderItem) :
    (x.placeItem item).2.now = x.now := by
  obtain ⟨-, ⟨-, hi⟩ | ⟨a, r, -, -, hs⟩⟩ := placeItem_cases hf item
  · exact hi.now
  · exact hs.now

theorem placeItem_locate (hf : x.Fresh) (item : BulkOrderItem) {underlying expStr : String}
    {strike : ℕ} {style : OptionStyle} (h : x.locate underlying expStr strike style = .ok a) :
    (x.placeItem item).2.locate underlying expStr strike style = .ok a := by
  obtain ⟨hcat, -⟩ := placeItem_cases hf item
  have hnow : (x.placeItem item).2.now = (x.getOrCreate item.underlying).now :=
    (placeItem_now hf item).trans (getOrCreate_idle x item.underlying).now.symm
  rw [locate_congr hcat hnow]
  exact getOrCreate_locate h item.underlying

end Exchange

namespace AppState
open Exchange

variable {B F : Type} [Upstream B] {s : AppState B F} {b : Batch B F} {item : BulkOrderItem}
  {items : List BulkOrderItem} {atomic : Bool}

section Loop

theorem submitAll_concat (s : AppState B F) (atomic : Bool) (items : List BulkOrderItem)
    (item : BulkOrderItem) : s.submitAll atomic (items ++ [item]) =
      (s.submitAll atomic items).next atomic (item, items.length) := by
  simp [submitAll, List.zipIdx_append]

theorem Batch.next_failed {f : ℕ × String} (h : b.failed = some f) (e : BulkOrderItem × ℕ) :
    b.next atomic e = b := by
  unfold Batch.next
  rw [h]

/-- One round: the item is accepted, or it fails, which ends an atomic batch. -/
theorem Batch.next_cases (h : b.failed = none) (atomic : Bool) (item : BulkOrderItem) (n : ℕ) :
    (∃ a r, (b.state.market.placeItem item).1 = some (a, r) ∧
      b.next atomic (item, n) =
        { b with
          state := b.state.acceptItem a item b.state.market.nextOrderId r
            (b.state.market.placeItem item).2
          accepted := b.accepted ++ [⟨n, b.state.market.nextOrderId, r.executedQuantity⟩]
          results := b.results ++
            [⟨n, some (showOrderId B b.state.market.nextOrderId), .accepted, none⟩]
          successCount := b.successCount + 1 }) ∨
    ∃ e, (b.state.market.placeItem item).1 = none ∧
      b.next atomic (item, n) =
        if atomic then
          { b with
            state := b.state.withMarket (b.state.market.placeItem item).2
            failed := some (n, e) }
        else
          { b with
            state := b.state.withMarket (b.state.market.placeItem item).2
            results := b.results ++ [⟨n, none, .rejected, some e⟩]
            failureCount := b.failureCount + 1 } := by
  rcases submitSingleOrder_cases b.state item with ⟨e, hnone, he⟩ | ⟨a, r, hsome, he⟩
  · refine .inr ⟨e, hnone, ?_⟩
    unfold Batch.next
    rw [h]
    dsimp only
    rw [he]
  · refine .inl ⟨a, r, hsome, ?_⟩
    unfold Batch.next
    rw [h]
    dsimp only
    rw [he]

end Loop

section Tallies

/-- A bulk response over `n` items adds up. -/
structure AddsUp (n : ℕ) (results : List BulkOrderResultItem) (successCount failureCount : ℕ) :
    Prop where
  indices : results.map BulkOrderResultItem.index = List.range n
  ids : ∀ r ∈ results, r.orderId.isSome = true ↔ r.status = .accepted
  success : successCount = (results.filter fun r => r.status = .accepted).length
  total : successCount + failureCount = n

variable {n succeeded failed : ℕ} {results : List BulkOrderResultItem}

/-- One more result, counted where its status says. -/
theorem AddsUp.next (h : AddsUp n results succeeded failed) {r : BulkOrderResultItem}
    (hindex : r.index = n) (hid : r.orderId.isSome = true ↔ r.status = .accepted) :
    AddsUp (n + 1) (results ++ [r]) (succeeded + if r.status = .accepted then 1 else 0)
      (failed + if r.status = .accepted then 0 else 1) where
  indices := by simp [h.indices, hindex, List.range_succ]
  ids r' hr := by
    rcases List.mem_append.mp hr with hr | hr
    · exact h.ids r' hr
    · simpa [List.mem_singleton.mp hr] using hid
  success := by by_cases hr : r.status = .accepted <;> simp [h.success, hr]
  total := by
    have htotal := h.total
    split_ifs <;> omega

theorem submitAll_addsUp (s : AppState B F) (atomic : Bool) (items : List BulkOrderItem)
    (h : (s.submitAll atomic items).failed = none) :
    AddsUp items.length (s.submitAll atomic items).results (s.submitAll atomic items).successCount
      (s.submitAll atomic items).failureCount := by
  induction items using List.reverseRecOn with
  | nil => exact ⟨rfl, nofun, rfl, rfl⟩
  | append_singleton items item ih =>
    rw [submitAll_concat] at h ⊢
    rw [List.length_append, List.length_singleton]
    cases hb : (s.submitAll atomic items).failed with
    | some f =>
      rw [Batch.next_failed hb, hb] at h
      cases h
    | none =>
      rcases Batch.next_cases hb atomic item items.length with ⟨a, r, -, he⟩ | ⟨e, -, he⟩
      · rw [he]
        exact (ih hb).next rfl (by simp)
      · rw [he] at h ⊢
        split_ifs at h ⊢
        exact (ih hb).next rfl (by simp)

theorem submitAll_not_failed (s : AppState B F) (items : List BulkOrderItem) :
    (s.submitAll false items).failed = none := by
  induction items using List.reverseRecOn with
  | nil => rfl
  | append_singleton items item ih =>
    rw [submitAll_concat]
    rcases Batch.next_cases ih false item items.length with ⟨a, r, -, he⟩ | ⟨e, -, he⟩
    · rw [he]
      exact ih
    · rw [he]
      exact ih

/-- Only an atomic batch stops. -/
theorem atomic_of_failed {s : AppState B F} (h : (s.submitAll atomic items).failed ≠ none) :
    atomic = true := by
  cases atomic with
  | true => rfl
  | false => exact absurd (submitAll_not_failed s items) h

/-- An atomic batch that does not stop accepts every item. -/
theorem submitAll_accepted (s : AppState B F) (items : List BulkOrderItem)
    (h : (s.submitAll true items).failed = none) :
    (s.submitAll true items).accepted.map AcceptedBulkOrder.index = List.range items.length := by
  induction items using List.reverseRecOn with
  | nil => rfl
  | append_singleton items item ih =>
    rw [submitAll_concat] at h ⊢
    cases hb : (s.submitAll true items).failed with
    | some f =>
      rw [Batch.next_failed hb, hb] at h
      cases h
    | none =>
      rcases Batch.next_cases hb true item items.length with ⟨a, r, -, he⟩ | ⟨e, -, he⟩
      · rw [he]
        simp [ih hb, List.range_succ]
      · rw [he] at h
        cases h

/-- It accepts every item up to the one it stops at, and looks at none after that one. -/
theorem submitAll_stops (s : AppState B F) (items : List BulkOrderItem) {k : ℕ} {e : String}
    (h : (s.submitAll true items).failed = some (k, e)) :
    k < items.length ∧ (s.submitAll true (items.take k)).failed = none ∧
      s.submitAll true items = s.submitAll true (items.take (k + 1)) := by
  induction items using List.reverseRecOn with
  | nil => cases h
  | append_singleton items item ih =>
    have hlen : (items ++ [item]).length = items.length + 1 := by simp
    rw [submitAll_concat] at h
    cases hb : (s.submitAll true items).failed with
    | some f =>
      rw [Batch.next_failed hb] at h
      obtain ⟨hk, hbefore, htake⟩ := ih h
      refine ⟨by omega, ?_, ?_⟩
      · rw [List.take_append_of_le_length hk.le]
        exact hbefore
      · rw [submitAll_concat, Batch.next_failed hb, List.take_append_of_le_length hk]
        exact htake
    | none =>
      have hk : k = items.length := by
        rcases Batch.next_cases hb true item items.length with ⟨a, r, -, he⟩ | ⟨e', -, he⟩
        · rw [he] at h
          cases h.symm.trans hb
        · rw [he] at h
          exact (congrArg Prod.fst (Option.some.inj h)).symm
      subst hk
      refine ⟨by omega, ?_, ?_⟩
      · rw [List.take_left]
        exact hb
      · rw [← hlen, List.take_length]

/-- The batch an atomic submission stops with: the items before the failing one were accepted,
and the failing one left its traces on the books only. -/
theorem submitAll_failing (s : AppState B F) (items : List BulkOrderItem) {k : ℕ} {e : String}
    (h : (s.submitAll true items).failed = some (k, e)) :
    ∃ item, ((s.submitAll true (items.take k)).state.market.placeItem item).1 = none ∧
      s.submitAll true items =
        { s.submitAll true (items.take k) with
          state := (s.submitAll true (items.take k)).state.withMarket
            ((s.submitAll true (items.take k)).state.market.placeItem item).2
          failed := some (k, e) } := by
  obtain ⟨hk, hbefore, htake⟩ := submitAll_stops s items h
  rw [htake] at h ⊢
  rw [List.take_succ_eq_append_getElem hk, submitAll_concat] at h ⊢
  rcases Batch.next_cases hbefore true items[k] (items.take k).length with
    ⟨a, r, -, he⟩ | ⟨e', hnone, he⟩
  · rw [he] at h
    cases h.symm.trans hbefore
  · rw [he, if_pos rfl] at h ⊢
    exact ⟨items[k], hnone, congrArg _ h⟩

theorem submitAll_failing_accepted (s : AppState B F) (items : List BulkOrderItem) {k : ℕ}
    {e : String} (h : (s.submitAll true items).failed = some (k, e)) :
    (s.submitAll true items).accepted.map AcceptedBulkOrder.index = List.range k := by
  obtain ⟨hk, hbefore, -⟩ := submitAll_stops s items h
  obtain ⟨item, -, hall⟩ := submitAll_failing s items h
  rw [hall]
  exact (submitAll_accepted s _ hbefore).trans (by rw [List.length_take_of_le hk.le])

end Tallies

section Books
variable {x : Exchange B}

/-- What a batch that began on the exchange `x` has on the books: every accepted order was placed
where its item leads, and no other order of the request rests anywhere. -/
structure Batch.Placed (x : Exchange B) (items : List BulkOrderItem) (b : Batch B F) : Prop where
  fresh : b.state.market.Fresh
  next : x.nextOrderId ≤ b.state.market.nextOrderId
  places : ∀ o ∈ b.accepted, ∃ item a, items[o.index]? = some item ∧
    b.state.market.locate item.underlying item.expiration item.strike item.style = .ok a ∧
    x.nextOrderId ≤ o.orderId ∧ b.state.market.home o.orderId = some a ∧
    b.state.market.HomedAt o.orderId
  ids : (b.accepted.map AcceptedBulkOrder.orderId).Nodup
  only : ∀ ⦃a i o⦄, x.nextOrderId ≤ i → b.state.market.getOrder a i = some o →
    i ∈ b.accepted.map AcceptedBulkOrder.orderId

theorem Batch.Placed.issued (h : b.Placed x items) {o : AcceptedBulkOrder}
    (ho : o ∈ b.accepted) : o.orderId < b.state.market.nextOrderId := by
  obtain ⟨item, a, -, -, -, hh, -⟩ := h.places o ho
  exact h.fresh.home hh

theorem Batch.start_placed (hf : s.market.Fresh) : (Batch.start s).Placed s.market [] where
  fresh := hf
  next := le_rfl
  places o ho := by cases ho
  ids := List.nodup_nil
  only a i o hi ho := absurd (hf.resting ho) (Nat.not_lt.mpr hi)

/-- Other items and other orders: what was placed before stays placed. -/
theorem Batch.Placed.places_mono {b' : Batch B F} {items' : List BulkOrderItem}
    (h : b.Placed x items) (hi : items <+: items')
    (hl : ∀ {underlying expStr strike style a},
      b.state.market.locate underlying expStr strike style = .ok a →
      b'.state.market.locate underlying expStr strike style = .ok a)
    (hh : ∀ {i a}, b.state.market.home i = some a → b.state.market.HomedAt i →
      b'.state.market.home i = some a ∧ b'.state.market.HomedAt i)
    {o : AcceptedBulkOrder} (ho : o ∈ b.accepted) :
    ∃ item a, items'[o.index]? = some item ∧
      b'.state.market.locate item.underlying item.expiration item.strike item.style = .ok a ∧
      x.nextOrderId ≤ o.orderId ∧ b'.state.market.home o.orderId = some a ∧
      b'.state.market.HomedAt o.orderId := by
  obtain ⟨item, a, hget, hloc, hid, hhome, hat⟩ := h.places o ho
  obtain ⟨rest, rfl⟩ := hi
  refine ⟨item, a, ?_, hl hloc, hid, hh hhome hat⟩
  rw [List.getElem?_append_left (List.getElem?_eq_some_iff.mp hget).1]
  exact hget

theorem Batch.Placed.accept [LawfulUpstream B] (h : b.Placed x items) {a : OptionAddr}
    {r : MatchResult} (hsome : (b.state.market.placeItem item).1 = some (a, r)) {b' : Batch B F}
    (hm : b'.state.market = (b.state.market.placeItem item).2)
    (hacc : b'.accepted =
      b.accepted ++ [⟨items.length, b.state.market.nextOrderId, r.executedQuantity⟩]) :
    b'.Placed x (items ++ [item]) := by
  obtain ⟨hl, hs⟩ := placeItem_accepted h.fresh hsome
  have hcat := (placeItem_cases h.fresh item).1
  have hw := hs.wanes h.fresh
  have habs : ∀ c, b.state.market.newOrderId.2.getOrder c b.state.market.nextOrderId = none :=
    fun c => h.fresh.absent le_rfl
  have hnow := placeItem_now h.fresh item
  have hself : b.state.market.newOrderId.2.HomedAt b.state.market.nextOrderId := by
    intro c o ho
    rw [habs c] at ho
    cases ho
  rw [← hm] at hcat hs hw hnow
  refine ⟨hw.fresh, h.next.trans hw.next, fun o ho => ?_, ?_, fun c i o hi ho => ?_⟩
  · rw [hacc] at ho
    rcases List.mem_append.mp ho with ho | ho
    · refine h.places_mono (List.prefix_append items [item]) (fun hloc => ?_) (fun hh hat => ?_) ho
      · rw [hm]
        exact placeItem_locate h.fresh item hloc
      · exact ⟨hw.home hh, (hat.quiet (newOrderId_quiet _)).filled habs hs.filled⟩
    · obtain rfl := List.mem_singleton.mp ho
      refine ⟨item, a, by simp, ?_, h.next, hs.home_self, hself.filled habs hs.filled⟩
      rw [locate_congr hcat (hnow.trans (getOrCreate_idle _ _).now.symm)]
      exact hl
  · rw [hacc, List.map_append, List.nodup_append]
    refine ⟨h.ids, by simp, fun i hi j hj => ?_⟩
    obtain ⟨o, ho, rfl⟩ := List.mem_map.mp hi
    obtain rfl : j = b.state.market.nextOrderId := by simpa using hj
    exact (h.issued ho).ne
  · rw [hacc, List.map_append]
    rw [hs.filled.getOrder] at ho
    by_cases hid : i = b.state.market.nextOrderId
    · exact List.mem_append_right _ (by simp [hid])
    · apply List.mem_append_left
      by_cases hc : c = a
      · rw [if_pos hc, if_neg hid] at ho
        obtain ⟨o', ho', -⟩ := Option.bind_eq_some_iff.mp ho
        exact h.only hi ho'
      · rw [if_neg hc] at ho
        exact h.only hi ho

theorem Batch.Placed.fail [LawfulUpstream B] (h : b.Placed x items)
    (hnone : (b.state.market.placeItem item).1 = none) {b' : Batch B F}
    (hm : b'.state.market = (b.state.market.placeItem item).2)
    (hacc : b'.accepted = b.accepted) : b'.Placed x (items ++ [item]) := by
  have hi := placeItem_refused h.fresh hnone
  rw [← hm] at hi
  refine ⟨h.fresh.quiet hi.toQuiet, h.next.trans hi.nextOrderId, fun o ho => ?_, ?_,
    fun c i o hid ho => ?_⟩
  · rw [hacc] at ho
    refine h.places_mono (List.prefix_append items [item]) (fun hloc => ?_) (fun hh hat => ?_) ho
    · rw [hm]
      exact placeItem_locate h.fresh item hloc
    · exact ⟨hi.home.symm ▸ hh, hat.quiet hi.toQuiet⟩
  · rw [hacc]
    exact h.ids
  · rw [hacc]
    exact h.only hid ((hi.getOrder c i).symm.trans ho)

theorem submitAll_placed [LawfulUpstream B] (hf : s.market.Fresh) (atomic : Bool)
    (items : List BulkOrderItem) : (s.submitAll atomic items).Placed s.market items := by
  induction items using List.reverseRecOn with
  | nil => exact Batch.start_placed hf
  | append_singleton items item ih =>
    rw [submitAll_concat]
    cases hb : (s.submitAll atomic items).failed with
    | some f =>
      rw [Batch.next_failed hb]
      exact ⟨ih.fresh, ih.next, fun o ho => ih.places_mono (List.prefix_append items [item]) id
        (fun hh hat => ⟨hh, hat⟩) ho, ih.ids, ih.only⟩
    | none =>
      rcases Batch.next_cases hb atomic item items.length with ⟨a, r, hsome, he⟩ | ⟨e, hnone, he⟩
      · rw [he]
        exact ih.accept hsome (acceptItem_market _ _) rfl
      · rw [he]
        split_ifs <;> exact ih.fail hnone rfl rfl

end Books
end AppState
end OptionChainBackend
