import OptionChainBackend.Api.Rollback

/-!
`bulk_submit_orders` as a whole. A batch fails where the books first refuse an item; its response
adds up; and an atomic batch that failed has nothing left working but what its warnings name.
-/
namespace OptionChainBackend
open Foundation Upstream MarketMaker

namespace Exchange
variable {B : Type} [Upstream B]

/-- After the items `done`, the books accept `item`. -/
def Accepts (x : Exchange B) (done : List BulkOrderItem) (item : BulkOrderItem) : Prop :=
  ((x.placeItems done).placeItem item).1 ≠ none

/-- Item `k` is the first one the books refuse. -/
def FailsAt (x : Exchange B) (items : List BulkOrderItem) (k : ℕ) : Prop :=
  k < items.length ∧ EachInTurn x.Accepts (items.take k) ∧
    ¬ EachInTurn x.Accepts (items.take (k + 1))

theorem FailsAt.unique {x : Exchange B} {items : List BulkOrderItem} {k j : ℕ}
    (h : x.FailsAt items k) (h' : x.FailsAt items j) : k = j := by
  have hle : ∀ {m n}, x.FailsAt items m → x.FailsAt items n → n ≤ m := by
    intro m n hm hn
    by_contra hlt
    have hall := hn.2.1.take (m + 1)
    rw [List.take_take, min_eq_left (by omega)] at hall
    exact hm.2.2 hall
  exact le_antisymm (hle h' h) (hle h h')

end Exchange

/-- The entry an accepted order gets in the response of the batch that was rolled back. -/
def RollbackOutcome.entry (i : ℕ) : RollbackOutcome → BulkOrderResultItem
  | .cleanlyRolledBack => ⟨i, none, .rejected, some "Rolled back due to atomic failure"⟩
  | .unrollbackable orderId warning => ⟨i, some orderId, .accepted, some warning⟩
  | .phantom warning => ⟨i, none, .rejected, some warning⟩

namespace AppState
open Exchange

variable {B F : Type} [Upstream B] {s : AppState B F} {items : List BulkOrderItem} {k : ℕ}

section Failure

theorem submitAll_market (s : AppState B F) (atomic : Bool) (items : List BulkOrderItem)
    (h : (s.submitAll atomic items).failed = none) :
    (s.submitAll atomic items).state.market = s.market.placeItems items := by
  induction items using List.reverseRecOn with
  | nil => rfl
  | append_singleton items item ih =>
    rw [submitAll_concat] at h ⊢
    have hplace : s.market.placeItems (items ++ [item]) =
        ((s.market.placeItems items).placeItem item).2 := by
      simp [placeItems]
    cases hb : (s.submitAll atomic items).failed with
    | some f =>
      rw [Batch.next_failed hb, hb] at h
      cases h
    | none =>
      rw [hplace, ← ih hb]
      rcases Batch.next_cases hb atomic item items.length with ⟨a, r, -, he⟩ | ⟨e, -, he⟩
      · rw [he]
        exact acceptItem_market _ _
      · rw [he]
        split_ifs <;> rfl

theorem submitAll_unfailed_iff (s : AppState B F) (items : List BulkOrderItem) :
    (s.submitAll true items).failed = none ↔ EachInTurn s.market.Accepts items := by
  induction items using List.reverseRecOn with
  | nil => exact ⟨fun _ => .nil, fun _ => rfl⟩
  | append_singleton items item ih =>
    rw [EachInTurn.concat_iff, ← ih, submitAll_concat]
    constructor
    · intro h
      cases hb : (s.submitAll true items).failed with
      | some f =>
        rw [Batch.next_failed hb, hb] at h
        cases h
      | none =>
        refine ⟨rfl, ?_⟩
        unfold Accepts
        rw [← submitAll_market s true items hb]
        rcases Batch.next_cases hb true item items.length with ⟨a, r, hsome, -⟩ | ⟨e, -, he⟩
        · rw [hsome]
          exact Option.some_ne_none _
        · rw [he] at h
          cases h
    · rintro ⟨hb, hlast⟩
      unfold Accepts at hlast
      rw [← submitAll_market s true items hb] at hlast
      rcases Batch.next_cases hb true item items.length with ⟨a, r, -, he⟩ | ⟨e, hnone, -⟩
      · rw [he]
        exact hb
      · exact absurd hnone hlast

/-- An atomic submission stops exactly at the first item the books refuse. -/
theorem submitAll_fails_iff (s : AppState B F) (items : List BulkOrderItem) (k : ℕ) :
    (∃ e, (s.submitAll true items).failed = some (k, e)) ↔ s.market.FailsAt items k := by
  have hfails : ∀ {j e}, (s.submitAll true items).failed = some (j, e) →
      s.market.FailsAt items j := by
    intro j e h
    obtain ⟨hj, hbefore, htake⟩ := submitAll_stops s items h
    refine ⟨hj, (submitAll_unfailed_iff s _).mp hbefore, fun hall => ?_⟩
    rw [htake, (submitAll_unfailed_iff s _).mpr hall] at h
    cases h
  constructor
  · rintro ⟨e, h⟩
    exact hfails h
  · intro h
    cases hb : (s.submitAll true items).failed with
    | none => exact absurd (((submitAll_unfailed_iff s items).mp hb).take (k + 1)) h.2.2
    | some f =>
      obtain ⟨j, e⟩ := f
      obtain rfl := h.unique (hfails hb)
      exact ⟨e, rfl⟩

end Failure

section Response
variable {accepted : List AcceptedBulkOrder} {answer : ℕ → Except String Bool}
  {out : Outcomes × AppState B F} {e : String} {o : AcceptedBulkOrder} {i : ℕ}

omit [Upstream B] in
theorem Indexed.find (h : Indexed items accepted) (ho : o ∈ accepted) :
    (accepted.find? fun o' => o'.index = o.index) = some o := by
  cases hf : accepted.find? fun o' => o'.index = o.index with
  | none => exact absurd (List.find?_eq_none.mp hf o ho) (by simp)
  | some o' =>
    have hi : o'.index = o.index := by simpa using List.find?_some hf
    exact congrArg some
      (List.inj_on_of_nodup_map h.indices (List.mem_of_find?_eq_some hf) ho hi)

theorem RolledBack.entry (h : RolledBack s items accepted answer out)
    (hi : Indexed items accepted) (ho : o ∈ accepted) :
    rollbackResult out.1 k e o.index = (classify B o (answer o.index)).entry o.index := by
  unfold rollbackResult
  rw [h.outcomes, hi.find ho]
  simp only [Option.map_some]
  cases classify B o (answer o.index) <;> rfl

/-- Every other item is reported rejected. -/
theorem RolledBack.entry_other (h : RolledBack s items accepted answer out)
    (hi : ∀ o ∈ accepted, o.index ≠ i) :
    (rollbackResult out.1 k e i).status = .rejected ∧
      (rollbackResult out.1 k e i).orderId = none := by
  have hf : (accepted.find? fun o => o.index = i) = none := by
    rw [List.find?_eq_none]
    intro o ho
    simpa using hi o ho
  unfold rollbackResult
  rw [h.outcomes, hf]
  simp only [Option.map_none]
  split_ifs <;> exact ⟨rfl, rfl⟩

theorem rollbackResult_index (outcomes : Outcomes) (i : ℕ) :
    (rollbackResult outcomes k e i).index = i := by
  unfold rollbackResult
  split
  · rfl
  · rfl
  · rfl
  · split_ifs <;> rfl

theorem rollbackResult_ids (outcomes : Outcomes) (i : ℕ) :
    (rollbackResult outcomes k e i).orderId.isSome = true ↔
      (rollbackResult outcomes k e i).status = .accepted := by
  unfold rollbackResult
  split
  · simp
  · simp
  · simp
  · split_ifs <;> simp

theorem RolledBack.success (h : RolledBack s items accepted answer out)
    (hi : Indexed items accepted)
    (hidx : accepted.map AcceptedBulkOrder.index = List.range k) (hk : k ≤ items.length) :
    ((out.1.entries.map fun e => e.2).filter RollbackOutcome.isUnrollbackable).length =
      (((List.range items.length).map (rollbackResult out.1 k e)).filter
        fun r => r.status = .accepted).length := by
  obtain ⟨m, hm⟩ := Nat.exists_eq_add_of_le hk
  have hrest : ((List.range m).map (k + ·)).filter
      (fun i => decide ((rollbackResult out.1 k e i).status = .accepted)) = [] := by
    refine List.filter_eq_nil_iff.mpr fun i hmem => ?_
    obtain ⟨j, -, rfl⟩ := List.mem_map.mp hmem
    have hout : ∀ o ∈ accepted, o.index ≠ k + j := by
      intro o ho
      have hlt : o.index ∈ List.range k := hidx ▸ List.mem_map_of_mem ho
      rw [List.mem_range] at hlt
      omega
    simp [(h.entry_other hout).1]
  have hsame : ∀ o ∈ accepted,
      decide ((rollbackResult out.1 k e o.index).status = .accepted) =
        (classify B o (answer o.index)).isUnrollbackable := by
    intro o ho
    rw [h.entry hi ho]
    cases classify B o (answer o.index) <;> rfl
  calc ((out.1.entries.map fun e => e.2).filter RollbackOutcome.isUnrollbackable).length
      = ((accepted.map fun o => classify B o (answer o.index)).filter
          RollbackOutcome.isUnrollbackable).length := (h.values.filter _).length_eq
    _ = (accepted.filter fun o =>
          decide ((rollbackResult out.1 k e o.index).status = .accepted)).length := by
        rw [List.filter_map, List.length_map]
        exact congrArg List.length (List.filter_congr fun o ho => (hsame o ho).symm)
    _ = ((List.range k).filter fun i =>
          decide ((rollbackResult out.1 k e i).status = .accepted)).length := by
        rw [← hidx, List.filter_map, List.length_map]
        rfl
    _ = ((List.range items.length).filter fun i =>
          decide ((rollbackResult out.1 k e i).status = .accepted)).length := by
        rw [hm, List.range_add, List.filter_append, hrest, List.append_nil]
    _ = _ := by
        rw [List.filter_map, List.length_map]
        rfl

theorem RolledBack.addsUp (h : RolledBack s items accepted answer out)
    (hi : Indexed items accepted)
    (hidx : accepted.map AcceptedBulkOrder.index = List.range k) (hk : k ≤ items.length) :
    AddsUp items.length (rollbackResponse items out.1 k e).results
      (rollbackResponse items out.1 k e).successCount
      (rollbackResponse items out.1 k e).failureCount where
  indices := by
    have hfun : BulkOrderResultItem.index ∘ rollbackResult out.1 k e = id := by
      funext i
      exact rollbackResult_index out.1 i
    simp [rollbackResponse, hfun]
  ids r hr := by
    obtain ⟨i, -, rfl⟩ := List.mem_map.mp hr
    exact rollbackResult_ids out.1 i
  success := h.success hi hidx hk
  total := by
    have hle : ((out.1.entries.map fun e => e.2).filter
        RollbackOutcome.isUnrollbackable).length ≤ items.length := by
      rw [h.success hi hidx hk (e := e)]
      refine (List.length_filter_le _ _).trans ?_
      simp
    simp only [rollbackResponse, min_eq_left hle]
    omega

/-- The warnings of a rolled-back batch are those of its outcomes. -/
theorem RolledBack.warnings (h : RolledBack s items accepted answer out)
    (hidx : accepted.map AcceptedBulkOrder.index = List.range k) {outcome : ℕ → RollbackOutcome}
    (ho : ∀ o ∈ accepted, outcome o.index = classify B o (answer o.index)) :
    (rollbackResponse items out.1 k e).rollbackWarnings.Perm
      ((List.range k).filterMap fun n => (outcome n).warning) := by
  have hsort : (rollbackResponse items out.1 k e).rollbackWarnings.Perm
      ((out.1.entries.map fun e => e.2).filterMap RollbackOutcome.warning) :=
    List.perm_insertionSort _ _
  have hvalues := h.values.filterMap RollbackOutcome.warning
  have hlist : (accepted.map fun o => classify B o (answer o.index)).filterMap
      RollbackOutcome.warning = (List.range k).filterMap fun n => (outcome n).warning := by
    rw [← hidx, List.filterMap_map, List.filterMap_map]
    apply List.filterMap_congr
    intro o hmem
    simp only [Function.comp_apply, ho o hmem]
  rw [← hlist]
  exact hsort.trans hvalues

end Response

section Submission
variable [LawfulUpstream B]

theorem submitAll_indexed (hf : s.market.Fresh) {e : String}
    (he : (s.submitAll true items).failed = some (k, e)) :
    Indexed items (s.submitAll true items).accepted := by
  have hplaced := submitAll_placed hf true items
  refine ⟨fun o ho => ?_, ?_, hplaced.ids⟩
  · obtain ⟨item, a, hitem, -⟩ := hplaced.places o ho
    exact ⟨item, hitem⟩
  · rw [submitAll_failing_accepted s items he]
    exact List.nodup_range

omit [LawfulUpstream B] in
/-- An atomic batch that fails is answered by the rollback of what it had placed. -/
theorem bulkSubmitOrders_rollback {e : String}
    (he : (s.submitAll true items).failed = some (k, e)) :
    s.bulkSubmitOrders ⟨items, true⟩ =
      (.ok (rollbackResponse items ((s.submitAll true items).state.rollbackOrders items
          (s.submitAll true items).accepted).1 k e),
        ((s.submitAll true items).state.rollbackOrders items
          (s.submitAll true items).accepted).2) := by
  have hne : items ≠ [] := by
    rintro rfl
    exact Nat.not_lt_zero k (submitAll_stops s [] he).1
  unfold bulkSubmitOrders
  rw [if_neg hne]
  dsimp only
  unfold Batch.finish
  rw [he]
  rfl

theorem bulkSubmitOrders_fails (hf : s.market.Fresh) (h : s.market.FailsAt items k) :
    ∃ e answer out, (s.submitAll true items).failed = some (k, e) ∧
      s.bulkSubmitOrders ⟨items, true⟩ = (.ok (rollbackResponse items out.1 k e), out.2) ∧
      Indexed items (s.submitAll true items).accepted ∧
      RolledBack (s.submitAll true items).state items (s.submitAll true items).accepted answer
        out := by
  obtain ⟨e, he⟩ := (submitAll_fails_iff s items k).mpr h
  have hi := submitAll_indexed hf he
  obtain ⟨answer, hback⟩ := rollbackOrders_spec (s.submitAll true items).state hi
  exact ⟨e, answer, _, he, bulkSubmitOrders_rollback he, hi, hback⟩

omit [LawfulUpstream B] in
/-- A batch that no failing item stops. -/
theorem bulkSubmitOrders_completes {body : BulkOrderRequest} (hne : body.orders ≠ [])
    (h : (s.submitAll body.atomic body.orders).failed = none) :
    s.bulkSubmitOrders body =
      (.ok ⟨(s.submitAll body.atomic body.orders).successCount,
        (s.submitAll body.atomic body.orders).failureCount,
        (s.submitAll body.atomic body.orders).results, false, []⟩,
      (s.submitAll body.atomic body.orders).state) := by
  unfold bulkSubmitOrders
  rw [if_neg hne]
  dsimp only
  unfold Batch.finish
  rw [h]

omit [LawfulUpstream B] in
/-- The failing item ends the request: with the items after it dropped, the state is the same. -/
theorem bulkSubmitOrders_take (s : AppState B F) (h : s.market.FailsAt items k) :
    (s.bulkSubmitOrders ⟨items.take (k + 1), true⟩).2 = (s.bulkSubmitOrders ⟨items, true⟩).2 := by
  obtain ⟨e, he⟩ := (submitAll_fails_iff s items k).mpr h
  obtain ⟨hk, -, htake⟩ := submitAll_stops s items he
  have hrollback : ∀ t : AppState B F,
      t.rollbackOrders (items.take (k + 1)) (s.submitAll true items).accepted =
        t.rollbackOrders items (s.submitAll true items).accepted := by
    intro t
    apply List.foldl_ext
    intro acc o ho
    have hlt : o.index ∈ List.range k := by
      rw [← submitAll_failing_accepted s items he]
      exact List.mem_map_of_mem ho
    rw [List.mem_range] at hlt
    unfold rollbackNext
    rw [List.getElem?_take_of_lt (by omega)]
  have hne : items ≠ [] := by
    rintro rfl
    exact Nat.not_lt_zero k hk
  have hne' : items.take (k + 1) ≠ [] := by
    simpa using hne
  unfold bulkSubmitOrders
  rw [if_neg hne, if_neg hne']
  dsimp only
  unfold Batch.finish
  rw [← htake, he]
  dsimp only
  unfold rollbackAtomicBulk
  rw [hrollback]

/-- Order `i` is reported accepted with a warning that its cancel returned an error. -/
def ReportedStuck (B : Type) [Upstream B] (resp : BulkOrderResponse) (i : OrderId) : Prop :=
  ∃ n w e, resp.results[n]? = some ⟨n, some (showOrderId B i), .accepted, some w⟩ ∧
    (w = cancelFailedWarning (showOrderId B i) n e ∨
      ∃ filled, w = filledWarning (showOrderId B i) n filled (.error e))

/-- What still rests of a failed atomic batch is named by a warning. -/
theorem bulkSubmitOrders_rests (hf : s.market.Fresh) (h : s.market.FailsAt items k)
    {resp : BulkOrderResponse} {s' : AppState B F}
    (hs : s.bulkSubmitOrders ⟨items, true⟩ = (.ok resp, s')) {a : OptionAddr} {i : OrderId}
    (hi : s.market.nextOrderId ≤ i) (ho : (s'.market.getOrder a i).isSome) :
    ReportedStuck B resp i := by
  obtain ⟨e, answer, out, -, hout, hindexed, hback⟩ := bulkSubmitOrders_fails hf h
  obtain ⟨hr, rfl⟩ := Prod.mk.inj (hs.symm.trans hout)
  obtain rfl := Except.ok.inj hr
  have hplaced := submitAll_placed hf true items
  obtain ⟨ord, hord⟩ := Option.isSome_iff_exists.mp ho
  have hrest : (s.submitAll true items).state.market.getOrder a i = some ord := by
    rcases hback.cleared.getOrder a i with he | ⟨-, hn⟩
    · exact he.symm.trans hord
    · rw [hn] at hord
      cases hord
  obtain ⟨o, hmem, rfl⟩ := List.mem_map.mp (hplaced.only hi hrest)
  obtain ⟨item, a', hitem, hloc, -, hhome, hat⟩ := hplaced.places o hmem
  obtain rfl : a = a' := Option.some.inj ((hat hrest).symm.trans hhome)
  have hlt : o.index < items.length := (List.getElem?_eq_some_iff.mp hitem).1
  have hentry : (rollbackResponse items out.1 k e).results[o.index]? =
      some ((classify B o (answer o.index)).entry o.index) := by
    simp only [rollbackResponse, List.getElem?_map, List.getElem?_range hlt, Option.map_some,
      hback.entry hindexed hmem]
  cases hans : answer o.index with
  | ok res =>
    have hgone := hback.gone o hmem (by rw [hans]; rfl) item a hitem hloc
    rw [hgone] at hord
    cases hord
  | error m =>
    rw [hans] at hentry
    unfold classify at hentry
    by_cases hfilled : 0 < o.filledQuantity
    · simp only [hfilled, if_true] at hentry
      exact ⟨_, _, m, hentry, .inr ⟨_, rfl⟩⟩
    · simp only [hfilled, if_false] at hentry
      exact ⟨_, _, m, hentry, .inl rfl⟩

/-- A failed atomic batch leaves nothing working but what a warning names, its items after the
failing one do not matter, and every bulk response adds up. -/
theorem bulk_submit_settles (hf : s.market.Fresh) {body : BulkOrderRequest}
    (hne : body.orders ≠ []) :
    ∃ resp s', s.bulkSubmitOrders body = (.ok resp, s') ∧
      AddsUp body.orders.length resp.results resp.successCount resp.failureCount ∧
      (resp.rolledBack = true ↔ body.atomic = true ∧ ∃ k, s.market.FailsAt body.orders k) ∧
      (resp.rolledBack = false → resp.rollbackWarnings = []) ∧
      (body.atomic = true → ∀ k, s.market.FailsAt body.orders k →
        (∀ a i, s.market.nextOrderId ≤ i → (s'.market.getOrder a i).isSome →
          ReportedStuck B resp i) ∧
        (s.bulkSubmitOrders ⟨body.orders.take (k + 1), true⟩).2 = s' ∧
        ∃ outcome : ℕ → RollbackOutcome,
          (∀ n < k, ∃ o ∈ (s.submitAll true body.orders).accepted, o.index = n ∧
            (∃ cancel, outcome n = classify B o cancel) ∧
            resp.results[n]? = some ((outcome n).entry n)) ∧
          resp.rollbackWarnings.Perm
            ((List.range k).filterMap fun n => (outcome n).warning)) := by
  obtain ⟨items, atomic⟩ := body
  by_cases hall : (s.submitAll atomic items).failed = none
  · have hnone : ∀ k, atomic = true → ¬ s.market.FailsAt items k := by
      rintro k rfl hk
      obtain ⟨e, he⟩ := (submitAll_fails_iff s items k).mpr hk
      rw [hall] at he
      cases he
    refine ⟨_, _, bulkSubmitOrders_completes hne hall, submitAll_addsUp s atomic items hall, ?_,
      fun _ => rfl, fun hat k hk => absurd hk (hnone k hat)⟩
    simp only [Bool.false_eq_true, false_iff, not_and, not_exists]
    exact fun hat k => hnone k hat
  · obtain rfl := atomic_of_failed hall
    obtain ⟨⟨k, e⟩, hke⟩ := Option.ne_none_iff_exists'.mp hall
    have hk := (submitAll_fails_iff s items k).mp ⟨e, hke⟩
    obtain ⟨e', answer, out, he', hout, hindexed, hback⟩ := bulkSubmitOrders_fails hf hk
    have hidx := submitAll_failing_accepted s items he'
    refine ⟨_, _, hout, hback.addsUp hindexed hidx hk.1.le, ?_, nofun, fun _ j hj => ?_⟩
    · simp only [rollbackResponse, true_iff, true_and]
      exact ⟨k, hk⟩
    · obtain rfl := hk.unique hj
      refine ⟨fun a i hi ho => bulkSubmitOrders_rests hf hk hout hi ho, ?_,
        fun n => (out.1.lookup n).getD .cleanlyRolledBack, fun n hn => ?_, ?_⟩
      · rw [bulkSubmitOrders_take s hk, hout]
      · have hmem : n ∈ (s.submitAll true items).accepted.map AcceptedBulkOrder.index := by
          rw [hidx]
          exact List.mem_range.mpr hn
        obtain ⟨o, ho, rfl⟩ := List.mem_map.mp hmem
        have hlt : o.index < items.length := hn.trans hk.1
        have hlook : (out.1.lookup o.index).getD .cleanlyRolledBack =
            classify B o (answer o.index) := by
          rw [hback.outcomes, hindexed.find ho]
          rfl
        refine ⟨o, ho, rfl, ⟨answer o.index, hlook⟩, ?_⟩
        simp only [hlook, rollbackResponse, List.getElem?_map, List.getElem?_range hlt,
          Option.map_some, hback.entry hindexed ho]
      · refine hback.warnings hidx fun o ho => ?_
        rw [hback.outcomes, hindexed.find ho]
        rfl

end Submission

section Reference

/-- One option book, found by the days of its expiration. -/
def listed : AppState ReferenceBook ℚ := reference.step (.createStrike "BTC" "30" 10000)

theorem listed_fresh : listed.market.Fresh :=
  (reference_start.grounded.step (.createStrike "BTC" "30" 10000)).fresh

def bulkItem (strike : ℕ) (side : Side) (price quantity : ℕ) : BulkOrderItem :=
  ⟨"BTC", "30", strike, .call, side, price, quantity⟩

/-- A sell, a buy that takes part of it, and an item without a book. -/
def crossingItems : List BulkOrderItem :=
  [bulkItem 10000 .sell 100 5, bulkItem 10000 .buy 100 2, bulkItem 20000 .buy 100 1]

theorem crossingItems_fails : listed.market.FailsAt crossingItems 2 := by
  apply (submitAll_fails_iff listed crossingItems 2).mp
  exact ⟨"Strike not found: strike not found: 20000", by decide +kernel⟩

theorem bulk_submit_settles_crossing : ∃ resp s',
    listed.bulkSubmitOrders ⟨crossingItems, true⟩ = (.ok resp, s') ∧
      AddsUp 3 resp.results resp.successCount resp.failureCount ∧ resp.rolledBack = true ∧
      ∀ a i, (s'.market.getOrder a i).isSome → ReportedStuck ReferenceBook resp i := by
  have hne : (⟨crossingItems, true⟩ : BulkOrderRequest).orders ≠ [] := by decide
  obtain ⟨resp, s', hs, hadds, hback, -, hrests⟩ := bulk_submit_settles listed_fresh hne
  refine ⟨resp, s', hs, hadds, hback.mpr ⟨rfl, 2, crossingItems_fails⟩, fun a i => ?_⟩
  exact (hrests rfl 2 crossingItems_fails).1 a i (by exact Nat.zero_le i)

end Reference
end AppState
end OptionChainBackend
