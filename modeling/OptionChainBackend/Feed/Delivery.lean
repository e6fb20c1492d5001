import OptionChainBackend.Feed.Commands

/-!
What a subscription delivers. A delta goes out under the book's own symbol; the entry of the
subscription and the counter of its snapshot go by what the client wrote.
-/
namespace OptionChainBackend
open Foundation Upstream MarketMaker

namespace Subscriptions
variable {B : Type} [Upstream B] (f : Subscriptions) (x : Exchange B) (a : OptionAddr)

/-- `n` is the next number of a symbol in `f`, and `f'` has moved on from it. -/
def DrawnFrom (f f' : Subscriptions) (symbol : String) (n : ℕ) : Prop :=
  (f.nextSequence symbol).1 = n ∧ (f'.nextSequence symbol).1 = n + 1

theorem nextSequence_self (symbol : String) :
    DrawnFrom f (f.nextSequence symbol).2 symbol (f.nextSequence symbol).1 := by
  constructor
  · rfl
  · simp [nextSequence]

theorem nextSequence_other {symbol symbol' : String} (h : symbol' ≠ symbol) :
    ((f.nextSequence symbol).2.nextSequence symbol').1 = (f.nextSequence symbol').1 := by
  simp [nextSequence, h]

/-- Every delta of a book carries the book's symbol. -/
theorem publishLevelDelta_deltas (side : Side) (price : ℕ) :
    ∃ e, (f.publishLevelDelta x a side price).deltas = f.deltas ++ [e] ∧ e.symbol = x.symbols a :=
  ⟨_, rfl, rfl⟩

end Subscriptions

namespace Websocket
open Subscriptions
variable {B : Type} [Upstream B]

/-- Every delta of book `b`, published whenever, is for a client with these entries. -/
def Delivers (entries : Finset String) (x : Exchange B) (b : OptionAddr) : Prop :=
  ∀ (f : Subscriptions) (x' : Exchange B) side price, x'.symbols b = x.symbols b →
    ∃ e, (f.publishLevelDelta x' b side price).deltas = f.deltas ++ [e] ∧
      subscriptionMatches entries e.symbol = true

theorem delivers_iff {entries : Finset String} {x : Exchange B} {b : OptionAddr} :
    Delivers entries x b ↔ subscriptionMatches entries (x.symbols b) = true := by
  constructor
  · intro h
    obtain ⟨e, he, hmatch⟩ := h ⟨∅, [], []⟩ x .buy 0 rfl
    obtain ⟨e', he', hsymbol⟩ := publishLevelDelta_deltas ⟨∅, [], []⟩ x b .buy 0
    have heq : e = e' := by simpa using he.symm.trans he'
    rw [← hsymbol, ← heq]
    exact hmatch
  · intro h f x' side price hx
    obtain ⟨e, he, hsymbol⟩ := publishLevelDelta_deltas f x' b side price
    refine ⟨e, he, ?_⟩
    rw [hsymbol, hx]
    exact h

theorem subscriptionMatches_self {entries : Finset String} {symbol : String}
    (h : symbol ∈ entries) : subscriptionMatches entries symbol = true := by
  simp [subscriptionMatches, h]

variable [Leveled B] {x : Exchange B} {f f' : Subscriptions} {c c' : Connection} {b : OptionAddr}
  {symbol symbol' : String} {depth : Option ℕ} {n : ℕ} {bids asks : List PriceLevelData}

theorem checkSubscription_ok {channel : String} {entries : Finset String}
    (h : Connection.checkSubscription channel entries (some symbol) = .ok symbol') :
    symbol' = symbol := by
  change (if _ then _ else if _ then _ else _) = Except.ok symbol' at h
  split_ifs at h
  exact (Except.ok.inj h).symm

/-- The snapshot in the answer is one of the book the symbol leads to; the client's spelling is
what is tracked and numbered. -/
theorem snapshot_answered (hb : snapshotBook x symbol = some b)
    (hout : handleOrderbookSubscribe x f c (some symbol) depth = (c', f'))
    (hsent : c'.sent = c.sent ++ [.subscribed "orderbook" symbol,
      .orderbookSnapshot "orderbook" symbol' n bids asks]) :
    bids = Leveled.levels (x.books b) (depth.getD 10) .buy ∧
    asks = Leveled.levels (x.books b) (depth.getD 10) .sell ∧
    symbol ∈ c'.subscribedSymbols ∧ f' = (f.nextSequence symbol).2 ∧
      n = (f.nextSequence symbol).1 := by
  unfold handleOrderbookSubscribe at hout
  split at hout
  · obtain ⟨rfl, rfl⟩ := Prod.mk.inj hout
    simp [Connection.send] at hsent
  · rename_i symbol₁ hcheck
    obtain rfl := checkSubscription_ok hcheck
    simp only [snapshotReply, hb, Option.map_some] at hout
    obtain ⟨rfl, rfl⟩ := Prod.mk.inj hout
    simp only [Connection.send, List.append_assoc, List.append_cancel_left_eq, List.cons_append,
      List.nil_append, List.cons.injEq, WsMessage.orderbookSnapshot.injEq, true_and,
      and_true] at hsent
    obtain ⟨-, hn, hbids, hasks⟩ := hsent
    exact ⟨hbids.symm, hasks.symm, Finset.mem_insert_self _ _, rfl, hn.symm⟩

/-- A subscriber that got a snapshot of a book gets its deltas, numbered from the same counter,
exactly when it spelled the symbol the way the book does. -/
theorem snapshot_followed_iff (hb : snapshotBook x symbol = some b)
    (hout : handleOrderbookSubscribe x f c (some symbol) depth = (c', f'))
    (hsent : c'.sent = c.sent ++ [.subscribed "orderbook" symbol,
      .orderbookSnapshot "orderbook" symbol' n bids asks]) :
    Delivers c'.subscribedSymbols x b ∧ DrawnFrom f f' (x.symbols b) n ↔
      symbol = x.symbols b := by
  obtain ⟨-, -, hmem, rfl, rfl⟩ := snapshot_answered hb hout hsent
  constructor
  · rintro ⟨-, hsame, hnext⟩
    by_contra hne
    have hstill := nextSequence_other f (Ne.symm hne)
    omega
  · rintro rfl
    constructor
    · exact delivers_iff.mpr (subscriptionMatches_self hmem)
    · exact nextSequence_self f _

section Spellings

/-- The one book was created with the segment `30`. -/
def thirtyDays : Exchange ReferenceBook := Exchange.init.openBook btcCall

/-- A first client subscribes; nothing was published yet. -/
def firstSubscribe (symbol : String) : Connection × Subscriptions :=
  handleOrderbookSubscribe thirtyDays ⟨∅, [], []⟩ ⟨∅, ∅, []⟩ (some symbol) none

theorem snapshot_followed_canonical :
    Delivers (firstSubscribe "BTC-19700131-10000-C").1.subscribedSymbols thirtyDays btcCall ∧
    DrawnFrom ⟨∅, [], []⟩ (firstSubscribe "BTC-19700131-10000-C").2
      (thirtyDays.symbols btcCall) 0 := by
  have hb : snapshotBook thirtyDays "BTC-19700131-10000-C" = some btcCall := by decide +kernel
  have hsent : (firstSubscribe "BTC-19700131-10000-C").1.sent =
      [] ++ [.subscribed "orderbook" "BTC-19700131-10000-C",
        .orderbookSnapshot "orderbook" "BTC-19700131-10000-C" 0 [] []] := by decide +kernel
  have hsymbol : "BTC-19700131-10000-C" = thirtyDays.symbols btcCall := by decide +kernel
  have hout : handleOrderbookSubscribe thirtyDays ⟨∅, [], []⟩ ⟨∅, ∅, []⟩
      (some "BTC-19700131-10000-C") none = ((firstSubscribe "BTC-19700131-10000-C").1,
        (firstSubscribe "BTC-19700131-10000-C").2) := rfl
  exact (snapshot_followed_iff hb hout hsent).mpr hsymbol

/-- The segment that created the book is accepted and answered with a snapshot; the deltas go out
under the date. -/
theorem snapshot_frozen :
    snapshotBook thirtyDays "BTC-30-10000-C" = some btcCall ∧
    (firstSubscribe "BTC-30-10000-C").1.sent = [.subscribed "orderbook" "BTC-30-10000-C",
      .orderbookSnapshot "orderbook" "BTC-30-10000-C" 0 [] []] ∧
    ¬ (Delivers (firstSubscribe "BTC-30-10000-C").1.subscribedSymbols thirtyDays btcCall) ∧
    ¬ (DrawnFrom ⟨∅, [], []⟩ (firstSubscribe "BTC-30-10000-C").2
      (thirtyDays.symbols btcCall) 0) := by
  refine ⟨by decide +kernel, by decide +kernel, ?_, ?_⟩
  · rw [delivers_iff]
    decide +kernel
  · unfold DrawnFrom
    decide +kernel

end Spellings

end Websocket
end OptionChainBackend
