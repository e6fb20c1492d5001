import OptionChainBackend.Api.CancelAll

/-!
`bulk_cancel_orders`. Every listed string gets one result, in order, and the result tells whether
that entry took a resting order off its book and out of the tracking.
-/
namespace OptionChainBackend
open Foundation Upstream MarketMaker Exchange

namespace AppState
variable {B F : Type} [Upstream B] {s s' : AppState B F} {key : String} {keys : List String}

section Entry

/-- From `s` to `s'` the order tracked under `key` left the book it rested on and the tracking, and
nothing else did. -/
def Took (s s' : AppState B F) (key : String) : Prop :=
  ∃ o a i, s.orders.lookup key = some o ∧ key = showOrderId B i ∧
    trackedTarget s.market key o = some (a, i) ∧ (s.market.getOrder a i).isSome = true ∧
    (∀ c j, s'.market.getOrder c j = if c = a ∧ j = i then none else s.market.getOrder c j) ∧
    s'.orders = s.orders.erase key

/-- The books and the tracked orders of `s'` are those of `s`. -/
structure Untouched (s s' : AppState B F) : Prop where
  catalog : s'.market.toCatalog = s.market.toCatalog
  books : ∀ c j, s'.market.getOrder c j = s.market.getOrder c j
  orders : s'.orders = s.orders

theorem Took.lookup (h : Took s s' key) :
    (s.orders.lookup key).isSome = true ∧ s'.orders.lookup key = none := by
  obtain ⟨o, a, i, ho, -, -, -, -, horders⟩ := h
  constructor
  · simp [ho]
  · simp [horders, AList.lookup_erase]

theorem Took.not_untouched (h : Took s s' key) : ¬ Untouched s s' := by
  intro hu
  obtain ⟨hsome, hnone⟩ := h.lookup
  simp [← hu.orders, hnone] at hsome

/-- One entry of the list: every exit of the loop body. -/
theorem bulkCancelOne_cases [LawfulUpstream B] (hg : s.Grounded) (key : String) :
    (∃ s', s.bulkCancelOne key = (.ok (), s') ∧ Took s s' key) ∨
      ∃ e s', s.bulkCancelOne key = (.error e, s') ∧ Untouched s s' := by
  unfold bulkCancelOne
  cases ho : s.orders.lookup key with
  | none => exact .inr ⟨_, s, rfl, rfl, fun _ _ => rfl, rfl⟩
  | some o =>
    obtain ⟨i, -, hk, -⟩ := hg.tracked key o ho
    rcases cancelTracked_cases (s := s) key o with ⟨e, x, he, hi, hcat, -⟩ | ⟨a, j, x, he, ht, hc⟩
    · exact .inr ⟨e, _, he, hcat, hi.getOrder, rfl⟩
    · obtain rfl : j = i := trackedTarget_id (hk ▸ ht)
      exact .inl ⟨_, he, o, a, j, ho, hk, ht, hc.present, hc.getOrder, rfl⟩

end Entry

section Loop

/-- The state after the entries `keys`. -/
def cancelEach (s : AppState B F) (keys : List String) : AppState B F :=
  keys.foldl (fun s key => (s.bulkCancelOne key).2) s

theorem cancelEach_concat (s : AppState B F) (keys : List String) (key : String) :
    s.cancelEach (keys ++ [key]) = ((s.cancelEach keys).bulkCancelOne key).2 := by
  simp [cancelEach]

/-- The response and the state after the entries `keys`. -/
structure Accounted (s : AppState B F) (keys : List String)
    (out : BulkCancelResponse × AppState B F) : Prop where
  state : out.2 = s.cancelEach keys
  ids : out.1.results.map (·.orderId) = keys
  successes : out.1.successCount = out.1.results.countP (·.canceled)
  failures : out.1.failureCount = out.1.results.countP (!·.canceled)
  entry : ∀ before key after, keys = before ++ key :: after →
    ∃ r, out.1.results[before.length]? = some r ∧ r.orderId = key ∧
      (r.canceled = true ↔ Took (s.cancelEach before) (s.cancelEach (before ++ [key])) key) ∧
      (r.canceled = false →
        Untouched (s.cancelEach before) (s.cancelEach (before ++ [key])))
  -- an id that was cancelled is no longer tracked, so that its next listing fails
  once : ∀ key, out.1.results.countP (fun r => r.canceled && r.orderId = key) +
    (out.2.orders.lookup key).toList.length ≤ 1

theorem Accounted.nil (s : AppState B F) : Accounted s [] (⟨0, 0, []⟩, s) where
  state := rfl
  ids := rfl
  successes := rfl
  failures := rfl
  entry := by simp
  once key := by cases s.orders.lookup key <;> simp

variable {out out' : BulkCancelResponse × AppState B F}

/-- One more entry, with its result `r`. -/
theorem Accounted.next (h : Accounted s keys out) (r : BulkCancelResultItem)
    (hr : out'.1 = ⟨out.1.successCount + r.canceled.toNat, out.1.failureCount + (!r.canceled).toNat,
      out.1.results ++ [r]⟩)
    (hstate : out'.2 = (out.2.bulkCancelOne r.orderId).2)
    (htook : r.canceled = true → Took out.2 out'.2 r.orderId)
    (hleft : r.canceled = false → Untouched out.2 out'.2) :
    Accounted s (keys ++ [r.orderId]) out' where
  state := by rw [hstate, h.state, cancelEach_concat]
  ids := by simp [hr, h.ids]
  successes := by cases hc : r.canceled <;> simp [hr, h.successes, hc]
  failures := by cases hc : r.canceled <;> simp [hr, h.failures, hc]
  entry := by
    intro before key after hsplit
    have hlen : out.1.results.length = keys.length := by
      simpa using congrArg List.length h.ids
    have hlast : out'.2 = s.cancelEach (keys ++ [r.orderId]) := by
      rw [hstate, h.state, cancelEach_concat]
    rcases List.eq_nil_or_concat' after with rfl | ⟨after, last, rfl⟩
    · obtain ⟨rfl, hkey⟩ := List.append_inj' hsplit rfl
      obtain rfl : r.orderId = key := by simpa using hkey
      rw [← h.state, ← hlast]
      refine ⟨r, by simp [hr, ← hlen], rfl, ⟨htook, fun ht => ?_⟩, hleft⟩
      cases hc : r.canceled with
      | false => exact absurd (hleft hc) ht.not_untouched
      | true => rfl
    · have hold : keys = before ++ key :: after := by
        rw [← List.cons_append, ← List.append_assoc] at hsplit
        exact (List.append_inj' hsplit rfl).1
      obtain ⟨r', hr', hrest⟩ := h.entry before key after hold
      refine ⟨r', ?_, hrest⟩
      have hlt : before.length < out.1.results.length := by simp [hlen, hold]
      simpa [hr, List.getElem?_append_left hlt] using hr'
  once := by
    intro key
    have hkey := h.once key
    cases hc : r.canceled with
    | false => simpa [hr, hc, (hleft hc).orders] using hkey
    | true =>
      obtain ⟨o, a, i, ho, -, -, -, -, horders⟩ := htook hc
      by_cases hk : r.orderId = key
      · subst hk
        simp [ho] at hkey
        simp [hr, hc, horders, AList.lookup_erase, List.countP_append]
        omega
      · simpa [hr, hc, hk, horders, AList.lookup_erase_ne (Ne.symm hk)] using hkey

variable [LawfulUpstream B]

theorem bulkCancelNext_accounted (h : Accounted s keys out) (hg : out.2.Grounded) (key : String) :
    Accounted s (keys ++ [key]) (bulkCancelNext out key) := by
  unfold bulkCancelNext
  rcases bulkCancelOne_cases hg key with ⟨s', he, ht⟩ | ⟨e, s', he, hu⟩
  · rw [he]
    exact h.next ⟨key, true, none⟩ rfl (congrArg Prod.snd he).symm (fun _ => ht) nofun
  · rw [he]
    exact h.next ⟨key, false, some e⟩ rfl (congrArg Prod.snd he).symm nofun fun _ => hu

/-- The whole loop. -/
theorem foldl_bulkCancelNext_accounted (hg : s.Grounded) (keys : List String) :
    Accounted s keys (keys.foldl bulkCancelNext (⟨0, 0, []⟩, s)) := by
  induction keys using List.reverseRecOn with
  | nil => exact .nil s
  | append_singleton keys key ih =>
    have hadv := advances_foldl (fun acc : BulkCancelResponse × AppState B F => acc.2)
      bulkCancelNext bulkCancelNext_advances keys (⟨0, 0, []⟩, s) hg
    rw [List.foldl_append, List.foldl_cons, List.foldl_nil]
    exact bulkCancelNext_accounted ih (hg.advance hadv) key

variable [F64 F]

/-- The results of a bulk cancel account for its list entry by entry. An empty list is refused. -/
theorem bulk_cancel_accounting {ok : AppState B F → Request F → Prop} (h : Reaches Start step ok s)
    (orderIds : List String) :
    (orderIds = [] → s.bulkCancelOrders orderIds =
      (.error (.invalidRequest "Order IDs array cannot be empty"), s)) ∧
    (orderIds ≠ [] → ∃ resp,
      s.bulkCancelOrders orderIds = (.ok resp, s.cancelEach orderIds) ∧
      resp.results.map (·.orderId) = orderIds ∧
      resp.successCount + resp.failureCount = orderIds.length ∧
      resp.successCount = resp.results.countP (·.canceled) ∧
      (∀ before key after, orderIds = before ++ key :: after →
        ∃ r, resp.results[before.length]? = some r ∧ r.orderId = key ∧
          (r.canceled = true ↔ Took (s.cancelEach before) (s.cancelEach (before ++ [key])) key) ∧
          (r.canceled = false →
            Untouched (s.cancelEach before) (s.cancelEach (before ++ [key])))) ∧
      ∀ key, resp.results.countP (fun r => r.canceled && r.orderId = key) ≤ 1) := by
  unfold bulkCancelOrders
  constructor
  · intro hnil
    rw [if_pos hnil]
  · intro hne
    have hacc := foldl_bulkCancelNext_accounted (reaches_grounded h) orderIds
    have hsum : ∀ l : List BulkCancelResultItem,
        l.countP (·.canceled) + l.countP (!·.canceled) = l.length := by
      intro l
      induction l with
      | nil => rfl
      | cons r l ih => cases hr : r.canceled <;> simp [hr] <;> omega
    refine ⟨_, ?_, hacc.ids, ?_, hacc.successes, hacc.entry, fun key => ?_⟩
    · simp only [if_neg hne, hacc.state]
    · rw [hacc.successes, hacc.failures, hsum, ← List.length_map, hacc.ids]
    · exact (Nat.le_add_right _ _).trans (hacc.once key)

end Loop

section Reference

theorem bulk_cancel_empty_refused : ¬ ∀ orderIds : List String,
    ∃ resp, (reference.bulkCancelOrders orderIds).1 = .ok resp ∧
      resp.results.map (·.orderId) = orderIds := by
  intro h
  obtain ⟨resp, hresp, -⟩ := h []
  cases hresp

/-- A live id listed twice, then an unknown one: only the first entry cancels. -/
theorem bulk_cancel_accounting_twice : ∃ resp s',
    ((partlyFilled.take 2).foldl step reference).bulkCancelOrders ["0", "0", "x"] = (.ok resp, s') ∧
      resp.results.map (·.canceled) = [true, false, false] ∧
      resp.results.countP (fun r => r.canceled && r.orderId = "0") ≤ 1 := by
  have hrun : Reaches Start step (fun _ _ => True) ((partlyFilled.take 2).foldl step reference) :=
    (Reaches.start reference_start).run ⟨trivial, trivial, trivial⟩
  obtain ⟨resp, hresp, -, -, -, -, honce⟩ :=
    (bulk_cancel_accounting hrun ["0", "0", "x"]).2 (by simp)
  refine ⟨resp, _, hresp, ?_, honce "0"⟩
  have hflags : (((partlyFilled.take 2).foldl step reference).bulkCancelOrders
      ["0", "0", "x"]).1.toOption.map (fun r => r.results.map (·.canceled)) =
        some [true, false, false] := by decide +kernel
  simpa [hresp, Except.toOption] using hflags

end Reference
end AppState
end OptionChainBackend
