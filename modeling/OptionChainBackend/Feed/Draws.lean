import OptionChainBackend.Api.Parts
import OptionChainBackend.Feed.Delivery

/-!
What a request does to the delta feed: it draws numbers, one for each delta it sends. The deltas of
a symbol are therefore numbered in the order they are sent.
-/
namespace OptionChainBackend
open Foundation Upstream MarketMaker Exchange

namespace Subscriptions

/-- Numbers were drawn, some of them for the deltas sent; trades may have been sent as well. -/
inductive Draws (f : Subscriptions) : Subscriptions → Prop
  | refl : Draws f f
  | delta {g : Subscriptions} (h : Draws f g) (d : OrderbookDeltaEvent)
      (hd : d.sequence = (g.nextSequence d.symbol).1) :
      Draws f { (g.nextSequence d.symbol).2 with deltas := g.deltas ++ [d] }
  | number {g : Subscriptions} (h : Draws f g) (symbol : String) :
      Draws f (g.nextSequence symbol).2
  | traded {g : Subscriptions} (h : Draws f g) (events : List TradeEvent) :
      Draws f { g with tradeEvents := events }

variable {f g k : Subscriptions} {symbol : String}

theorem Draws.trans (h : Draws f g) (h' : Draws g k) : Draws f k := by
  induction h' with
  | refl => exact h
  | delta _ d hd ih => exact ih.delta d hd
  | number _ symbol ih => exact ih.number symbol
  | traded _ events ih => exact ih.traded events

theorem Draws.level {B : Type} [Upstream B] (f : Subscriptions) (x : Exchange B) (a : OptionAddr)
    (side : Side) (price : ℕ) : Draws f (f.publishLevelDelta x a side price) :=
  Draws.refl.delta (buildLevelDelta (x.symbols a) side price (levelVisibleQuantity x a side price)
    (f.nextSequence (x.symbols a)).1) rfl

/-- The next number of a symbol. -/
def currentSequence (f : Subscriptions) (symbol : String) : ℕ := (f.nextSequence symbol).1

theorem currentSequence_number (f : Subscriptions) (symbol symbol' : String) :
    (f.nextSequence symbol').2.currentSequence symbol =
      f.currentSequence symbol + if symbol' = symbol then 1 else 0 := by
  by_cases h : symbol' = symbol
  · subst h
    simp [currentSequence, nextSequence]
  · simp [currentSequence, nextSequence, h, Ne.symm h]

/-- The deltas sent for a symbol. -/
def deltasOf (f : Subscriptions) (symbol : String) : List OrderbookDeltaEvent :=
  f.deltas.filter fun d => d.symbol = symbol

/-- The deltas of a symbol are numbered in the order they were sent, those after the first `seen`
deltas from `n` on and those before them below `n`. -/
structure Ordered (f : Subscriptions) (symbol : String) (seen n : ℕ) : Prop where
  ascending : ((f.deltasOf symbol).map OrderbookDeltaEvent.sequence).Pairwise (· < ·)
  below : ∀ d ∈ f.deltas, d.symbol = symbol → d.sequence < f.currentSequence symbol
  counted : seen ≤ f.deltas.length
  since : ∀ d ∈ f.deltas.drop seen, d.symbol = symbol → n ≤ d.sequence
  before : ∀ d ∈ f.deltas.take seen, d.symbol = symbol → d.sequence < n
  next : n ≤ f.currentSequence symbol

variable {seen n : ℕ}

/-- From here on. -/
theorem Ordered.now (h : f.Ordered symbol seen n) :
    f.Ordered symbol f.deltas.length (f.currentSequence symbol) where
  ascending := h.ascending
  below := h.below
  counted := Nat.le_refl _
  since := by simp
  before := by simpa using h.below
  next := Nat.le_refl _

theorem Ordered.draws (h : f.Ordered symbol seen n) (hd : Draws f g) : g.Ordered symbol seen n := by
  induction hd with
  | refl => exact h
  | @number g _ symbol' ih =>
    have hle : g.currentSequence symbol ≤ (g.nextSequence symbol').2.currentSequence symbol := by
      rw [currentSequence_number]
      exact Nat.le_add_right _ _
    exact ⟨ih.ascending, fun d hd hs => (ih.below d hd hs).trans_le hle, ih.counted, ih.since,
      ih.before, ih.next.trans hle⟩
  | traded _ events ih => exact ⟨ih.ascending, ih.below, ih.counted, ih.since, ih.before, ih.next⟩
  | @delta g _ d hnum ih =>
    have hnext := currentSequence_number g symbol d.symbol
    have hnum' : d.sequence = g.currentSequence d.symbol := hnum
    refine ⟨?_, ?_, ?_, ?_, ?_, ?_⟩
    · show (((g.deltas ++ [d]).filter fun d => d.symbol = symbol).map
        OrderbookDeltaEvent.sequence).Pairwise (· < ·)
      rw [List.filter_append, List.map_append, List.pairwise_append]
      refine ⟨ih.ascending, ?_, ?_⟩
      · by_cases hs : d.symbol = symbol <;> simp [hs]
      · intro k hk j hj
        obtain ⟨e, he, rfl⟩ := List.mem_map.mp hk
        obtain ⟨e', he', rfl⟩ := List.mem_map.mp hj
        obtain ⟨hed, hes⟩ := List.mem_filter.mp he
        obtain ⟨he'd, he's⟩ := List.mem_filter.mp he'
        obtain rfl := List.mem_singleton.mp he'd
        rw [hnum', of_decide_eq_true he's]
        exact ih.below e hed (of_decide_eq_true hes)
    · intro e he hs
      show e.sequence < (g.nextSequence d.symbol).2.currentSequence symbol
      rw [hnext]
      rcases List.mem_append.mp he with he | he
      · exact (ih.below e he hs).trans_le (Nat.le_add_right _ _)
      · obtain rfl := List.mem_singleton.mp he
        rw [hnum', hs, if_pos rfl]
        exact Nat.lt_succ_self _
    · show seen ≤ (g.deltas ++ [d]).length
      rw [List.length_append]
      exact ih.counted.trans (Nat.le_add_right _ _)
    · intro e he hs
      change e ∈ (g.deltas ++ [d]).drop seen at he
      rw [List.drop_append_of_le_length ih.counted] at he
      rcases List.mem_append.mp he with he | he
      · exact ih.since e he hs
      · obtain rfl := List.mem_singleton.mp he
        rw [hnum', hs]
        exact ih.next
    · intro e he hs
      change e ∈ (g.deltas ++ [d]).take seen at he
      rw [List.take_append_of_le_length ih.counted] at he
      exact ih.before e he hs
    · show n ≤ (g.nextSequence d.symbol).2.currentSequence symbol
      rw [hnext]
      exact ih.next.trans (Nat.le_add_right _ _)

theorem Draws.extends (h : Draws f g) : f.deltas <+: g.deltas := by
  induction h with
  | refl => exact List.prefix_refl _
  | delta _ d _ ih => exact ih.trans (List.prefix_append _ _)
  | number _ _ ih => exact ih
  | traded _ _ ih => exact ih

end Subscriptions

namespace AppState
open Subscriptions
variable {B F : Type} [Upstream B] {s : AppState B F}

theorem recordFills_draws (s : AppState B F) (symbol underlying : String) (side : Side)
    (fills : List ExecutedFill) :
    Draws s.toSubscriptions (s.recordFills symbol underlying side fills).toSubscriptions := by
  unfold recordFills
  apply List.foldlRecOn (motive := fun s' : AppState B F => Draws s.toSubscriptions
    s'.toSubscriptions)
  · exact .refl
  · intro s' hs' fill _
    unfold recordFill
    split_ifs
    · exact hs'.traded _
    · exact hs'

theorem recordMatch_draws (s : AppState B F) (symbol underlying : String) (side : Side)
    (r : MatchResult) :
    Draws s.toSubscriptions (s.recordMatch symbol underlying side r).toSubscriptions := by
  unfold recordMatch
  split_ifs
  · exact recordFills_draws s symbol underlying side _
  · exact .refl

theorem publishMatch_draws (s : AppState B F) (a : OptionAddr) (side : Side) (r : MatchResult) :
    Draws s.toSubscriptions (s.publishMatch a side r).toSubscriptions := by
  unfold publishMatch
  split_ifs
  · unfold AppState.publishConsumedMakerDeltas Subscriptions.publishConsumedMakerDeltas
    apply List.foldlRecOn (motive := fun g => Draws s.toSubscriptions g)
    · exact .refl
    · exact fun g hg price _ => hg.trans (.level g _ _ _ _)
  · exact .refl

theorem reportLimit_draws (s : AppState B F) (symbol underlying : String) (a : OptionAddr)
    (side : Side) (price : ℕ) (r : MatchResult) :
    Draws s.toSubscriptions (s.reportLimit symbol underlying a side price r).toSubscriptions := by
  unfold reportLimit publishRest
  have hmatch := (recordMatch_draws s symbol underlying side r).trans
    (publishMatch_draws _ a side r)
  split_ifs
  · exact hmatch.trans (.level _ _ _ _ _)
  · exact hmatch

theorem placeReplacement_draws (s : AppState B F) (expStr key : String) (a : OptionAddr)
    (side : Side) (price q : ℕ) : Draws s.toSubscriptions
      (s.placeReplacement expStr key a side price q).2.toSubscriptions := by
  unfold placeReplacement
  dsimp only
  split
  · exact .level _ _ _ _ _
  · exact .refl

theorem reconcile_subscriptions (s : AppState B F) (o : AcceptedBulkOrder)
    (cancel : Except String Bool) :
    (s.reconcile o cancel).toSubscriptions = s.toSubscriptions := by
  unfold reconcile
  dsimp only
  split_ifs
  · rfl
  · cases cancel <;> rfl

/-- Whatever a part of a request does, it draws from the feed. -/
theorem draws_callsKeep [LawfulUpstream B] (f : Subscriptions) :
    CallsKeep fun s : AppState B F => Draws f s.toSubscriptions where
  limit {s p body a tif} hg h _ := by
    rcases submitLimit_cases hg.fresh p.expStr a tif body with ⟨x, he, -⟩ | ⟨r, x, he, -, -⟩
    · rw [he]
      exact h
    · rw [he]
      exact h.trans (reportLimit_draws ((s.withMarket x).track _) _ _ _ _ _ _)
  market {s p body a} hg h _ := by
    rcases submitMarket_cases hg.fresh p.expStr a body with ⟨x, he, -⟩ | ⟨r, x, he, -, -⟩
    · rw [he]
      exact h
    · rw [he]
      exact h.trans ((recordMatch_draws (s.withMarket x) _ _ _ _).trans (publishMatch_draws _ _ _ _))
  item {s} item _ h := by
    rcases submitSingleOrder_cases s item with ⟨e, -, he⟩ | ⟨a, r, -, he⟩
    · rw [he]
      exact h
    · rw [he]
      exact h.trans (reportLimit_draws (s.withMarket (s.market.placeItem item).2)
        (symbolOf item.underlying item.expiration item.strike item.style) item.underlying a
        item.side item.price r)
  delete {s p key a id} _ h _ := by
    rcases cancelAt_cases (s := s) a id key with ⟨e, x, he, -⟩ | ⟨x, he, -⟩ | ⟨x, he, -⟩
    · rw [he]
      exact h
    · rw [he]
      cases s.market.getOrder a id with
      | none => exact h
      | some o => exact h.trans (.level _ _ _ _ _)
    · rw [he]
      exact h
  replace {s p key a id} o price q hg h _ _ := by
    rcases replaceOrder_cases (s := s) p.expStr key a id o price q with ⟨x, he, -⟩ | ⟨x, he, -, hc⟩
    · rw [he]
      exact h
    · rw [he]
      refine (h.trans (.level _ x a o.side o.price)).trans ?_
      exact placeReplacement_draws (((s.withMarket x).untrack key).publishLevelDelta a o.side
        o.price) p.expStr key a o.side price q
  cancel {s} key o _ h := by
    rcases cancelTracked_cases (s := s) key o with ⟨e, x, he, -⟩ | ⟨a, id, x, he, -⟩
    · rw [he]
      exact h
    · rw [he]
      exact h.trans (.level _ _ _ _ _)
  rollback {s} item o _ h := by
    unfold rollbackOrder
    dsimp only
    rw [reconcile_subscriptions]
    rcases cancelBulkItemOrder_cases (s := s) item o.orderId with ⟨res, x, he, -⟩ | ⟨a, x, he, -⟩
    · rw [he]
      exact h
    · rw [he]
      exact h.trans (.level _ _ _ _ _)
  untrack _ _ h := h
  save _ _ h := h
  restore {s} id _ h := by
    unfold restoreSnapshot
    split <;> exact h

theorem draws_restKeeps [F64 F] (f : Subscriptions) :
    RestKeeps fun s : AppState B F => Draws f s.toSubscriptions where
  idle _ _ h _ _ := h
  remove _ _ h := h
  engine _ _ h := h
  tick _ _ h := h

theorem step_draws [LawfulUpstream B] [F64 F] (hg : s.Grounded) (r : Request F) :
    Draws s.toSubscriptions (s.step r).toSubscriptions :=
  (draws_callsKeep s.toSubscriptions).step (draws_restKeeps _) hg .refl r

/-- In every run the deltas of a symbol are numbered in the order they are sent. -/
theorem reaches_ordered [LawfulUpstream B] [F64 F] {ok : AppState B F → Request F → Prop}
    (h : Reaches Start step ok s) (symbol : String) : s.Ordered symbol 0 0 := by
  have hstart : ∀ s : AppState B F, s.Start → s.Ordered symbol 0 0 := by
    rintro s ⟨quoter, rfl⟩
    exact ⟨.nil, nofun, Nat.le_refl _, nofun, nofun, Nat.zero_le _⟩
  have hkeep : s.Grounded ∧ s.Ordered symbol 0 0 := by
    apply Reaches.invariant (P := fun s => s.Grounded ∧ s.Ordered symbol 0 0) _ _ h
    · exact fun s hs => ⟨hs.grounded, hstart s hs⟩
    · exact fun s r hs _ => ⟨hs.1.step r, hs.2.draws (step_draws hs.1 r)⟩
  exact hkeep.2

end AppState
end OptionChainBackend
