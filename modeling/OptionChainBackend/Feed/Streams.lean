import OptionChainBackend.Feed.Lag
import OptionChainBackend.Feed.Subscribed
import OptionChainBackend.MarketMaker.Announcements

/-!
The three streams a connection listens to: the events of the engine, the deltas and the trades.
Whatever happens to the process, what was broadcast on them stays broadcast.
-/
namespace OptionChainBackend
open Foundation Upstream MarketMaker Exchange Auth

/-- A command is answered after what was answered before. -/
theorem Connection.Obeying.extends {F : Type} {c c' : Connection} {cmd : ClientCommand F}
    (h : Connection.Obeying c cmd c') : c.sent <+: c'.sent := by
  cases h with
  | subscribe ha hch hk h =>
    cases h with
    | accepted rest hs hp hadd ht hsent => exact hsent ▸ List.prefix_append _ _
    | refused hno => exact List.prefix_append _ _
  | unsubscribe ha hch hk h =>
    cases h with
    | confirmed hs ht hsent => exact hsent ▸ List.prefix_append _ _
    | refused hno => exact List.prefix_append _ _
  | batchSubscribe ha hs hm =>
    have hsame := Connection.foldl_sent
      (fun c sub => Connection.processChannel_sent subscribeEntry c sub) c
    rw [Connection.send_sent]
    exact (hsame _).symm ▸ List.prefix_append _ _
  | batchUnsubscribe ha hs hm =>
    have hsame := Connection.foldl_sent
      (fun c sub => Connection.processChannel_sent unsubscribeEntry c sub) c
    rw [Connection.send_sent]
    exact (hsame _).symm ▸ List.prefix_append _ _
  | answered m => exact List.prefix_append _ _
  | ignored => exact List.prefix_refl _

namespace AppState
variable {B F : Type} [Upstream B] {s s' s'' : AppState B F}

/-- Nothing broadcast by the engine or as a trade was taken back. -/
structure Tells (s s' : AppState B F) : Prop where
  events : s.engine.events <+: s'.engine.events
  trades : s.tradeEvents <+: s'.tradeEvents

namespace Tells

omit [Upstream B] in
theorem of_eq (he : s'.engine.events = s.engine.events) (ht : s'.tradeEvents = s.tradeEvents) :
    Tells s s' :=
  ⟨he ▸ List.prefix_refl _, ht ▸ List.prefix_refl _⟩

omit [Upstream B] in
theorem refl (s : AppState B F) : Tells s s := .of_eq rfl rfl

omit [Upstream B] in
theorem trans (h : Tells s s') (h' : Tells s' s'') : Tells s s'' :=
  ⟨h.events.trans h'.events, h.trades.trans h'.trades⟩

omit [Upstream B] in
theorem through {s₀ : AppState B F} (h : Tells s₀ s) (h' : Tells s' s'')
    (he : s'.engine.events = s.engine.events) (ht : s'.tradeEvents = s.tradeEvents) : Tells s₀ s'' :=
  (h.trans (.of_eq he ht)).trans h'

end Tells

section Parts
variable [F64 F]

theorem recordFill_tells (s : AppState B F) (symbol underlying : String) (side : Side)
    (fill : ExecutedFill) : Tells s (s.recordFill symbol underlying side fill) := by
  unfold recordFill
  split_ifs
  · refine ⟨?_, List.prefix_append _ _⟩
    dsimp only
    unfold notifyMaker
    split
    · rename_i id _
      exact operation_events s.toDesk (.onOrderFilled id fill.price fill.quantity)
    · exact List.prefix_refl _
  · exact .refl s

theorem recordMatch_tells (s : AppState B F) (symbol underlying : String) (side : Side)
    (r : MatchResult) : Tells s (s.recordMatch symbol underlying side r) := by
  unfold recordMatch recordFills
  split_ifs
  · apply List.foldlRecOn (motive := fun s' : AppState B F => Tells s s')
    · exact .refl s
    · intro s' hs' fill _
      exact hs'.trans (recordFill_tells s' symbol underlying side fill)
  · exact .refl s

omit [F64 F] in
theorem publishMatch_tells (s : AppState B F) (a : OptionAddr) (side : Side) (r : MatchResult) :
    Tells s (s.publishMatch a side r) := by
  refine .of_eq ?_ (publishMatch_published s a side r).tradeEvents
  unfold publishMatch
  split_ifs <;> rfl

theorem reportLimit_tells (s : AppState B F) (symbol underlying : String) (a : OptionAddr)
    (side : Side) (price : ℕ) (r : MatchResult) :
    Tells s (s.reportLimit symbol underlying a side price r) := by
  have hmatch := (recordMatch_tells s symbol underlying side r).trans (publishMatch_tells _ a side r)
  unfold reportLimit publishRest
  split_ifs
  · exact hmatch.trans (.of_eq rfl rfl)
  · exact hmatch

omit [F64 F] in
theorem placeReplacement_tells (s : AppState B F) (expStr key : String) (a : OptionAddr)
    (side : Side) (price q : ℕ) : Tells s (s.placeReplacement expStr key a side price q).2 := by
  unfold placeReplacement
  dsimp only
  split
  · exact .of_eq rfl rfl
  · exact .of_eq rfl rfl

omit [F64 F] in
theorem reconcile_tells (s : AppState B F) (o : AcceptedBulkOrder) (cancel : Except String Bool) :
    Tells s (s.reconcile o cancel) := by
  unfold reconcile
  dsimp only
  split_ifs
  · exact .of_eq rfl rfl
  · cases cancel <;> exact .of_eq rfl rfl

variable [LawfulUpstream B]

/-- Whatever a part of a request does, it takes nothing back. -/
theorem tells_callsKeep (s₀ : AppState B F) : CallsKeep fun s : AppState B F => Tells s₀ s where
  limit {s p body a tif} hg h _ := by
    rcases submitLimit_cases hg.fresh p.expStr a tif body with ⟨x, he, -⟩ | ⟨r, x, he, -, -⟩
    · rw [he]
      exact h.trans (.of_eq rfl rfl)
    · rw [he]
      exact h.through (reportLimit_tells ((s.withMarket x).track _) _ _ _ _ _ _) rfl rfl
  market {s p body a} hg h _ := by
    rcases submitMarket_cases hg.fresh p.expStr a body with ⟨x, he, -⟩ | ⟨r, x, he, -, -⟩
    · rw [he]
      exact h.trans (.of_eq rfl rfl)
    · rw [he]
      exact h.through ((recordMatch_tells (s.withMarket x) _ _ _ _).trans
        (publishMatch_tells _ _ _ _)) rfl rfl
  item {s} item _ h := by
    rcases submitSingleOrder_cases s item with ⟨e, -, he⟩ | ⟨a, r, -, he⟩
    · rw [he]
      exact h.trans (.of_eq rfl rfl)
    · have hreport := reportLimit_tells (s.withMarket (s.market.placeItem item).2)
        (symbolOf item.underlying item.expiration item.strike item.style) item.underlying a
        item.side item.price r
      rw [he]
      exact (h.through hreport rfl rfl).trans (.of_eq rfl rfl)
  delete {s p key a id} _ h _ := by
    rcases cancelAt_cases (s := s) a id key with ⟨e, x, he, -⟩ | ⟨x, he, -⟩ | ⟨x, he, -⟩
    · rw [he]
      exact h.trans (.of_eq rfl rfl)
    · rw [he]
      cases s.market.getOrder a id with
      | none => exact h.trans (.of_eq rfl rfl)
      | some o => exact h.trans (.of_eq rfl rfl)
    · rw [he]
      exact h.trans (.of_eq rfl rfl)
  replace {s p key a id} o price q hg h _ _ := by
    rcases replaceOrder_cases (s := s) p.expStr key a id o price q with ⟨x, he, -⟩ | ⟨x, he, -, hc⟩
    · rw [he]
      exact h.trans (.of_eq rfl rfl)
    · rw [he]
      exact h.through (placeReplacement_tells
        (((s.withMarket x).untrack key).publishLevelDelta a o.side o.price) p.expStr key a o.side
        price q) rfl rfl
  cancel {s} key o _ h := by
    rcases cancelTracked_cases (s := s) key o with ⟨e, x, he, -⟩ | ⟨a, id, x, he, -⟩
    · rw [he]
      exact h.trans (.of_eq rfl rfl)
    · rw [he]
      exact h.trans (.of_eq rfl rfl)
  rollback {s} item o _ h := by
    unfold rollbackOrder
    dsimp only
    refine Tells.trans ?_ (reconcile_tells _ o _)
    rcases cancelBulkItemOrder_cases (s := s) item o.orderId with ⟨res, x, he, -⟩ | ⟨a, x, he, -⟩
    · rw [he]
      exact h.trans (.of_eq rfl rfl)
    · rw [he]
      exact h.trans (.of_eq rfl rfl)
  untrack _ _ h := h.trans (.of_eq rfl rfl)
  save _ _ h := h.trans (.of_eq rfl rfl)
  restore {s} id _ h := by
    unfold restoreSnapshot
    split <;> exact h.trans (.of_eq rfl rfl)

omit [LawfulUpstream B] in
theorem tells_restKeeps (s₀ : AppState B F) : RestKeeps fun s : AppState B F => Tells s₀ s where
  idle _ _ h _ _ := h.trans (.of_eq rfl rfl)
  remove _ _ h := h.trans (.of_eq rfl rfl)
  engine {s} op _ h := h.trans ⟨operation_events s.toDesk op, List.prefix_refl _⟩
  tick _ _ h := h.trans (.of_eq rfl rfl)

theorem step_tells (hg : s.Grounded) (r : Request F) : Tells s (s.step r) :=
  (tells_callsKeep s).step (tells_restKeeps s) hg (.refl s) r

end Parts

/-- The process moved on: what it was in stands, and nothing broadcast was taken back. -/
structure Continues (s s' : AppState B F) : Prop where
  grounded : s.Grounded → s'.Grounded
  tells : s.Grounded → Tells s s'
  deltas : s.Grounded → s.deltas <+: s'.deltas

namespace Continues

theorem refl (s : AppState B F) : Continues s s :=
  ⟨id, fun _ => .refl s, fun _ => List.prefix_refl _⟩

variable [LawfulUpstream B] [F64 F]

theorem request (s : AppState B F) (r : Request F) : Continues s (s.step r) :=
  ⟨fun h => h.step r, fun h => step_tells h r, fun h => (step_draws h r).extends⟩

theorem setControl (s : AppState B F) (c : Connection) (check : F → Except String F)
    (op : F → Operation F) (value : Option F) : Continues s (setControl s c check op value).1 := by
  unfold OptionChainBackend.setControl
  cases value with
  | none => exact .refl s
  | some v =>
    dsimp only
    split
    · exact .request s (.engine (op _))
    · exact .refl s

theorem runControl (display : F → String) (s : AppState B F) (c : Connection)
    (cmd : ClientCommand F) : Continues s (runControl display s c cmd).1 := by
  unfold OptionChainBackend.runControl
  split
  · exact .setControl s c _ _ _
  · exact .setControl s c _ _ _
  · exact .setControl s c _ _ _
  · exact .request s (.engine (.setEnabled false))
  · exact .request s (.engine (.setEnabled true))
  · exact .refl s

variable [Leveled B]

omit [LawfulUpstream B] [F64 F] in
theorem runSubscribe (s : AppState B F) (c : Connection) (cmd : ClientCommand F) :
    Continues s (runSubscribe s c cmd).1 := by
  unfold OptionChainBackend.runSubscribe
  split
  · obtain ⟨hdraws, -⟩ := Line.subscribe_draws s.market s.toSubscriptions c cmd.symbol cmd.depth
    have htrades : (handleOrderbookSubscribe s.market s.toSubscriptions c cmd.symbol
        cmd.depth).2.tradeEvents = s.tradeEvents := by
      unfold handleOrderbookSubscribe snapshotReply
      split
      · rfl
      · rename_i symbol _
        cases Websocket.snapshotBook s.market symbol <;> rfl
    exact ⟨fun h => h.withFeed _, fun _ => .of_eq rfl htrades, fun _ => hdraws.extends⟩
  · exact .refl s
  · exact .refl s

/-- Obeying a command of some connection. -/
theorem command (display : F → String) (permissions : List Permission) (s : AppState B F)
    (c : Connection) (cmd : ClientCommand F) :
    Continues s (handleCommand display permissions s c cmd).1 := by
  have hcontrol : Continues s (if Permission.admin ∈ permissions then
      OptionChainBackend.runControl display s c cmd
      else (s, c.send (.error "forbidden: admin permission required"))).1 := by
    split_ifs
    · exact .runControl display s c cmd
    · exact .refl s
  unfold handleCommand
  split
  · exact .runSubscribe s c cmd
  · exact .refl s
  · exact hcontrol
  · exact hcontrol
  · exact hcontrol
  · exact hcontrol
  · exact hcontrol
  · exact .refl s
  · exact .refl s
  · exact .refl s
  · exact .refl s

end Continues
end AppState
end OptionChainBackend
