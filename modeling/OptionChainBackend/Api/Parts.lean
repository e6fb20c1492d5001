import OptionChainBackend.Api.Listed

/-!
Every request is made of a few parts: one submission, one cancel, one rollback. What each part
keeps is kept by every request and in every run.
-/
namespace OptionChainBackend
open Foundation Upstream MarketMaker Exchange

namespace AppState
variable {B F : Type} [Upstream B] {s : AppState B F} {P : AppState B F → Prop}

/-- What every part of a request keeps of a grounded state. -/
structure PartsKeep (P : AppState B F → Prop) : Prop where
  limit : ∀ {s : AppState B F} {p body a tif}, s.Grounded → P s →
    s.checkAddOrder p body = .ok (a, tif) → P (s.submitLimit p.expStr a tif body).2
  market : ∀ {s : AppState B F} {p body a}, s.Grounded → P s →
    checkMarketOrder p body = .ok a → P (s.submitMarket p.expStr a body).2
  item : ∀ {s : AppState B F} item, s.Grounded → P s → P (s.submitSingleOrder item).2
  delete : ∀ {s : AppState B F} {p key a id}, s.Grounded → P s →
    target s.market p key = .ok (a, id) → P (s.cancelAt a id key).2
  replace : ∀ {s : AppState B F} {p key a id} o price q, s.Grounded → P s →
    target s.market p key = .ok (a, id) → s.market.getOrder a id = some o →
    P (s.replaceOrder p.expStr key a id o price q).2
  cancel : ∀ {s : AppState B F} key o, s.Grounded → P s → P (s.cancelTracked key o).2
  rollback : ∀ {s : AppState B F} item o, s.Grounded → P s → P (s.rollbackOrder item o).2
  untrack : ∀ {s : AppState B F} key, s.Grounded → P s → P (s.untrack key)
  desk : ∀ {s : AppState B F} d, s.Grounded → P s → Advances s { s with toDesk := d } →
    Opens s.market d.market → P { s with toDesk := d }
  save : ∀ {s : AppState B F} id, s.Grounded → P s → P (s.createSnapshot id).2
  restore : ∀ {s : AppState B F} id, s.Grounded → P s → P (s.restoreSnapshot id).2

/-- What the book calls, the cancels and the snapshots of the handlers keep. -/
structure CallsKeep (P : AppState B F → Prop) : Prop where
  limit : ∀ {s : AppState B F} {p body a tif}, s.Grounded → P s →
    s.checkAddOrder p body = .ok (a, tif) → P (s.submitLimit p.expStr a tif body).2
  market : ∀ {s : AppState B F} {p body a}, s.Grounded → P s →
    checkMarketOrder p body = .ok a → P (s.submitMarket p.expStr a body).2
  item : ∀ {s : AppState B F} item, s.Grounded → P s → P (s.submitSingleOrder item).2
  delete : ∀ {s : AppState B F} {p key a id}, s.Grounded → P s →
    target s.market p key = .ok (a, id) → P (s.cancelAt a id key).2
  replace : ∀ {s : AppState B F} {p key a id} o price q, s.Grounded → P s →
    target s.market p key = .ok (a, id) → s.market.getOrder a id = some o →
    P (s.replaceOrder p.expStr key a id o price q).2
  cancel : ∀ {s : AppState B F} key o, s.Grounded → P s → P (s.cancelTracked key o).2
  rollback : ∀ {s : AppState B F} item o, s.Grounded → P s → P (s.rollbackOrder item o).2
  untrack : ∀ {s : AppState B F} key, s.Grounded → P s → P (s.untrack key)
  save : ∀ {s : AppState B F} id, s.Grounded → P s → P (s.createSnapshot id).2
  restore : ∀ {s : AppState B F} id, s.Grounded → P s → P (s.restoreSnapshot id).2

/-- What else happens to the process: books opened or removed, the engine, the clock. -/
structure RestKeeps [F64 F] (P : AppState B F → Prop) : Prop where
  idle : ∀ {s : AppState B F} x, s.Grounded → P s → Idle s.market x → Opens s.market x →
    P (s.withMarket x)
  remove : ∀ {s : AppState B F} u, s.Grounded → P s → P (s.withMarket (s.market.remove u))
  engine : ∀ {s : AppState B F} (op : Operation F), s.Grounded → P s →
    P { s with toDesk := op.apply s.toDesk }
  tick : ∀ {s : AppState B F} ms, s.Grounded → P s → P (s.withMarket (s.market.tick ms))

/-- A row of parts keeps what each of them keeps. -/
theorem foldl_keeps {ι σ : Type} (state : σ → AppState B F) (f : σ → ι → σ) {is : List ι}
    (hadv : ∀ acc i, (state acc).Grounded → Advances (state acc) (state (f acc i)))
    (hf : ∀ acc, ∀ i ∈ is, (state acc).Grounded → P (state acc) → P (state (f acc i)))
    (acc : σ) (hg : (state acc).Grounded) (h : P (state acc)) :
    P (state (is.foldl f acc)) := by
  induction is generalizing acc with
  | nil => exact h
  | cons i is ih =>
    apply ih
    · exact fun acc j hj => hf acc j (List.mem_cons_of_mem i hj)
    · exact hg.advance (hadv acc i hg)
    · exact hf acc i List.mem_cons_self hg h

theorem target_locate {x : Exchange B} {p : OptionPath} {key : String} {a : OptionAddr}
    {i : OrderId} (h : target x p key = .ok (a, i)) :
    (∃ style, parseOptionStyle p.style = .ok style ∧
      x.locate p.underlying p.expStr p.strike style = .ok a) ∧ parseOrderId B key = some i := by
  unfold target at h
  simp only [bind, Except.bind] at h
  cases hs : parseOptionStyle p.style with
  | error e =>
    rw [hs] at h
    cases h
  | ok style =>
    rw [hs] at h
    dsimp only at h
    split at h
    · cases h
    · cases h
    · cases h
    · cases h
    · rename_i hl hp
      cases h
      exact ⟨⟨style, rfl, hl⟩, hp⟩

section Rows
variable [LawfulUpstream B]

/-- What the submission of each item keeps, a batch keeps. -/
theorem submitAll_keeps (hg : s.Grounded) (h : P s) (atomic : Bool) {items : List BulkOrderItem}
    (hitem : ∀ {s : AppState B F}, ∀ item ∈ items, s.Grounded → P s →
      P (s.submitSingleOrder item).2) : P (s.submitAll atomic items).state := by
  apply foldl_keeps Batch.state (Batch.next atomic) (batchNext_advances atomic) _ (.start s) hg h
  rintro b ⟨item, n⟩ he hb hP
  rcases b.next_state_cases atomic (item, n) with heq | heq
  · rwa [heq]
  · rw [heq]
    exact hitem item (List.fst_mem_of_mem_zipIdx he) hb hP

/-- What the cancel of each order tracked under the keys keeps, `bulk_cancel_orders` keeps. -/
theorem bulkCancelOrders_keeps (hg : s.Grounded) (h : P s) {keys : List String}
    (hcancel : ∀ {s : AppState B F} {o}, ∀ key ∈ keys, s.orders.lookup key = some o →
      s.Grounded → P s → P (s.cancelTracked key o).2) : P (s.bulkCancelOrders keys).2 := by
  unfold bulkCancelOrders
  split_ifs
  · exact h
  · apply foldl_keeps (fun acc : BulkCancelResponse × AppState B F => acc.2) bulkCancelNext
      bulkCancelNext_advances _ (⟨0, 0, []⟩, s) hg h
    intro acc key hkey hacc hP
    rw [bulkCancelNext_snd]
    unfold bulkCancelOne
    split
    · exact hP
    · exact hcancel key hkey ‹_› hacc hP

/-- What the cancel of each order selected keeps, `cancel_all_orders` keeps. -/
theorem cancelAllOrders_keeps (hg : s.Grounded) (h : P s) {q : CancelAllQuery}
    (hcancel : ∀ {s' : AppState B F} {key o f}, parseCancelFilter q = .ok f →
      s.orders.lookup key = some o → f.selects o = true → s'.Grounded → P s' →
      P (s'.cancelTracked key o).2) : P (s.cancelAllOrders q).2 := by
  unfold cancelAllOrders
  split
  · exact h
  · apply foldl_keeps (fun acc : CancelAllResponse × AppState B F => acc.2) cancelNext
      cancelNext_advances _ (⟨0, 0⟩, s) hg h
    rintro acc ⟨key, o⟩ he hacc hP
    obtain ⟨ho, hsel⟩ := (Table.mem_select _ _ key o).mp he
    rw [cancelNext_snd]
    exact hcancel ‹_› ho hsel hacc hP

end Rows

namespace CallsKeep
variable [LawfulUpstream B]

theorem bulkSubmitOrders (hp : CallsKeep P) (hg : s.Grounded) (h : P s) (body : BulkOrderRequest) :
    P (s.bulkSubmitOrders body).2 := by
  have hall : P (s.submitAll body.atomic body.orders).state :=
    submitAll_keeps hg h body.atomic fun item _ => hp.item item
  have hadv := submitAll_advances hg body.atomic body.orders
  unfold AppState.bulkSubmitOrders
  split_ifs
  · exact h
  · dsimp only
    unfold Batch.finish
    split
    · refine foldl_keeps (fun acc : Outcomes × AppState B F => acc.2) (rollbackNext body.orders)
        (fun acc o hacc => ?_) (fun acc o _ hacc hP => ?_) (∅, _) (hg.advance hadv) hall
      · unfold rollbackNext
        split
        · exact .refl hacc.fresh
        · exact rollbackOrder_advances hacc _ o
      · unfold rollbackNext
        split
        · exact hP
        · exact hp.rollback _ o hacc hP
    · exact hall

theorem bulkCancelOrders (hp : CallsKeep P) (hg : s.Grounded) (h : P s) (keys : List String) :
    P (s.bulkCancelOrders keys).2 :=
  bulkCancelOrders_keeps hg h fun key _ _ => hp.cancel key _

theorem cancelAllOrders (hp : CallsKeep P) (hg : s.Grounded) (h : P s) (q : CancelAllQuery) :
    P (s.cancelAllOrders q).2 :=
  cancelAllOrders_keeps hg h fun _ _ _ => hp.cancel _ _

variable [F64 F]

theorem step (hp : CallsKeep P) (hr : RestKeeps P) (hg : s.Grounded) (h : P s) (i : Request F) :
    P (s.step i) := by
  cases i with
  | addOrder p body =>
    change P (s.addOrder p body).2
    unfold addOrder
    split
    · exact h
    · exact hp.limit hg h ‹_›
  | submitMarketOrder p body =>
    change P (s.submitMarketOrder p body).2
    unfold submitMarketOrder
    split
    · exact h
    · exact hp.market hg h ‹_›
  | cancelOrder p key =>
    change P (s.cancelOrder p key).2
    unfold cancelOrder
    split
    · exact h
    · exact hp.delete hg h ‹_›
  | modifyOrder p key body =>
    change P (s.modifyOrder p key body).2
    unfold modifyOrder
    split
    · exact h
    · rename_i hcheck
      obtain ⟨ht, ho, -⟩ := checkModifyOrder_ok hcheck
      exact hp.replace _ _ _ hg h ht ho
  | bulkSubmitOrders body => exact hp.bulkSubmitOrders hg h body
  | bulkCancelOrders keys => exact hp.bulkCancelOrders hg h keys
  | cancelAllOrders q => exact hp.cancelAllOrders hg h q
  | createSnapshot id => exact hp.save id hg h
  | restoreSnapshot id => exact hp.restore id hg h
  | createUnderlying u => exact hr.idle _ hg h (getOrCreate_idle _ u) (.getOrCreate _ u)
  | createExpiration u expStr =>
    change P (s.createExpiration u expStr).2
    unfold createExpiration
    split
    · exact h
    · exact hr.idle _ hg h ((getOrCreate_idle _ u).trans (getOrCreateExpiration_idle _ u _))
        ((Opens.getOrCreate _ u).trans (.getOrCreateExpiration _ u ⟨_, ‹_›⟩))
  | createStrike u expStr strike =>
    change P (s.createStrike u expStr strike).2
    unfold createStrike
    split
    · exact h
    · exact hr.idle _ hg h (((getOrCreate_idle _ u).trans
        (getOrCreateExpiration_idle _ u _)).trans (getOrCreateStrike_idle _ u _ strike))
        (((Opens.getOrCreate _ u).trans (.getOrCreateExpiration _ u ⟨_, ‹_›⟩)).trans
          (.getOrCreateStrike _ u _ strike))
  | deleteUnderlying u =>
    change P (s.deleteUnderlying u).2
    unfold deleteUnderlying
    split_ifs
    · exact hr.remove u hg h
    · exact h
  | cleanupOldOrders age =>
    exact foldl_keeps (fun s : AppState B F => s) AppState.untrack
      (fun _ key hacc => (Advances.refl hacc.fresh).untrack key)
      (fun _ key _ hacc hP => hp.untrack key hacc hP) s hg h
  | engine op => exact hr.engine op hg h
  | tick ms => exact hr.tick ms hg h

/-- What holds when the process comes up and is kept by every part holds in every run. -/
theorem reaches (hp : CallsKeep P) (hr : RestKeeps P) (h0 : ∀ s : AppState B F, s.Start → P s)
    {ok : AppState B F → Request F → Prop} (h : Reaches Start AppState.step ok s) :
    s.Grounded ∧ P s := by
  apply Reaches.invariant (P := fun s => s.Grounded ∧ P s) _ _ h
  · exact fun s hs => ⟨hs.grounded, h0 s hs⟩
  · exact fun s i hs _ => ⟨hs.1.step i, hp.step hr hs.1 hs.2 i⟩

end CallsKeep

namespace PartsKeep

theorem calls (hp : PartsKeep P) : CallsKeep P where
  limit := hp.limit
  market := hp.market
  item := hp.item
  delete := hp.delete
  replace := hp.replace
  cancel := hp.cancel
  rollback := hp.rollback
  untrack := hp.untrack
  save := hp.save
  restore := hp.restore

variable [LawfulUpstream B] [F64 F]

theorem rest (hp : PartsKeep P) : RestKeeps P where
  idle {s} x hg h hi ho := hp.desk { s.toDesk with market := x } hg h (create_advances hg x hi) ho
  remove {s} u hg h := hp.desk { s.toDesk with market := s.market.remove u } hg h
    (.withMarket ((remove_shrunk _ u).wanes hg.fresh)) (.remove _ u)
  engine {s} op hg h := hp.desk (op.apply s.toDesk) hg h (engine_advances hg op)
    (.of_eq (Desk.operation_catalog _ op))
  tick {s} ms hg h := hp.desk { s.toDesk with market := s.market.tick ms } hg h
    (.withMarket ((tick_shrunk _ ms).wanes hg.fresh)) (.of_eq rfl)

theorem reaches (hp : PartsKeep P) (h0 : ∀ s : AppState B F, s.Start → P s)
    {ok : AppState B F → Request F → Prop} (h : Reaches Start AppState.step ok s) :
    s.Grounded ∧ P s := hp.calls.reaches hp.rest h0 h

end PartsKeep

end AppState
end OptionChainBackend
