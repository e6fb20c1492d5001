import OptionChainBackend.Feed.Deltas
import OptionChainBackend.Feed.Draws
import OptionChainBackend.Foundation.Broadcast

/-!
One connection that may fall behind: its receiver loses deltas without a word to the client. A
client that watches the numbers knows when its copy of the book is exact.
-/
namespace OptionChainBackend
open Foundation Upstream MarketMaker Exchange

namespace AppState
variable {B F : Type}

/-- A connection is answered: only the feed is another. -/
def withFeed (s : AppState B F) (f : Subscriptions) : AppState B F :=
  { s with toSubscriptions := f }

variable [Upstream B] {s : AppState B F}

theorem Grounded.withFeed (h : s.Grounded) (f : Subscriptions) : (s.withFeed f).Grounded :=
  ⟨h.fresh, h.quoted, h.tracked, h.saved⟩

theorem Priced.withFeed [LawfulUpstream B] (h : s.Priced) (hg : s.Grounded) (f : Subscriptions) :
    (s.withFeed f).Priced :=
  h.keep hg ⟨Nat.le_refl _, fun _ _ o ho => .inr ⟨o, ho, rfl, rfl⟩⟩ rfl
    fun _ o ho => ⟨o, ho, rfl, rfl⟩

theorem Copied.withFeed {client : Client} {a : OptionAddr} (h : Copied client a s)
    {f : Subscriptions} (hd : f.deltas = s.deltas) : Copied client a (s.withFeed f) :=
  h.hold (.of_eq rfl) rfl (fun _ => rfl) hd

end AppState

/-- The process, and the connection of one client: the entries it is subscribed to, how far its
receiver has read, and the deltas it was sent. -/
structure Line (B F : Type) where
  state : AppState B F
  entries : Finset String
  next : ℕ
  sent : List OrderbookDeltaEvent

/-- A request, the subscription of some connection, or a turn of this one's receiver. -/
inductive LineStep (F : Type) where
  | request (r : Request F)
  | subscribe (c : Connection) (symbol : Option String) (depth : Option ℕ)
  | recv

namespace Line
variable {B F : Type} [Upstream B] [Leveled B] [F64 F]

/-- `capacity` is how many deltas the channel keeps. -/
def step (capacity : ℕ) (l : Line B F) : LineStep F → Line B F
  | .request r => { l with state := l.state.step r }
  | .subscribe c symbol depth =>
    { l with
      state := l.state.withFeed
        (handleOrderbookSubscribe l.state.market l.state.toSubscriptions c symbol depth).2 }
  | .recv =>
    match Broadcast.recv capacity l.state.deltas l.next with
    | (.item d, next) =>
      { l with
        next := next
        sent := if Websocket.subscriptionMatches l.entries d.symbol then l.sent ++ [d] else l.sent }
    | (_, next) => { l with next := next }

/-- The requests are those a client of book `a` can follow. -/
def Followed (a : OptionAddr) (l : Line B F) : LineStep F → Prop
  | .request r => l.state.Followed a r
  | _ => True

end Line

/-- One delta on the client's copy. -/
def OrderbookDeltaEvent.tell (symbol : String) (t : Table Level ℕ) (d : OrderbookDeltaEvent) :
    Table Level ℕ :=
  match d.notice symbol with
  | some (level, quantity) => t.put level quantity
  | none => t

/-- The client of a snapshot message, after the first `seen` deltas. -/
def Client.answered (symbol : String) (seen : ℕ) (bids asks : List PriceLevelData) : Client :=
  ⟨symbol, seen, Table.putAll ∅ (bids.map (fun l => (⟨.buy, l.price⟩, l.quantity)) ++
    asks.map fun l => (⟨.sell, l.price⟩, l.quantity))⟩

/-- A client that holds a snapshot with number `n` and looks at the numbers of what it is sent. -/
def Client.reader (client : Client) (n : ℕ) (sent : List OrderbookDeltaEvent) :
    Reader (Table Level ℕ) :=
  (sent.filter fun d => d.symbol = client.symbol).foldl
    (.hear OrderbookDeltaEvent.sequence (OrderbookDeltaEvent.tell client.symbol))
    ⟨client.opened, n, true⟩

/-- What was sent for the client's symbol since it read the book. -/
def Client.since (client : Client) (deltas : List OrderbookDeltaEvent) :
    List OrderbookDeltaEvent :=
  (deltas.drop client.seen).filter fun d => d.symbol = client.symbol

theorem OrderbookDeltaEvent.tell_foldl (symbol : String) (t : Table Level ℕ)
    (l : List OrderbookDeltaEvent) : (l.filter fun d => d.symbol = symbol).foldl
      (OrderbookDeltaEvent.tell symbol) t = t.putAll (l.filterMap (notice symbol)) := by
  induction l generalizing t with
  | nil => rfl
  | cons d l ih =>
    by_cases hd : d.symbol = symbol
    · rw [List.filter_cons_of_pos (by simpa using hd), List.foldl_cons, ih]
      cases hn : d.notice symbol with
      | none => simp [OrderbookDeltaEvent.tell, hn]
      | some e => simp [OrderbookDeltaEvent.tell, hn]
    · have hn : d.notice symbol = none := if_neg hd
      rw [List.filter_cons_of_neg (by simpa using hd), List.filterMap_cons_none hn, ih]

theorem Client.copy_eq_foldl (client : Client) (deltas : List OrderbookDeltaEvent) :
    client.copy deltas = (client.since deltas).foldl (OrderbookDeltaEvent.tell client.symbol)
      client.opened :=
  (OrderbookDeltaEvent.tell_foldl client.symbol client.opened _).symm

/-- A replica of the levels of a book shows the book, as long as no level overflows. -/
theorem ShowsBook.of_replicates {B : Type} [Upstream B] [LawfulUpstream B] {t : Table Level ℕ}
    {b : B} (h : t.Replicates fun level => level.quantityOn b)
    (hcap : ∀ level : Level, level.visibleOn b < 2 ^ 64) : ShowsBook t b := by
  intro level q
  have hq := h level q
  dsimp only at hq
  rw [hq, Level.quantityOn_eq (hcap level), ← Level.visibleOn_pos]
  constructor
  · rintro ⟨rfl, hne⟩
    exact ⟨hne, rfl⟩
  · rintro ⟨hne, rfl⟩
    exact ⟨rfl, hne⟩

section Reading
open Subscriptions
variable {f : Subscriptions} {client : Client} {n : ℕ} {sent : List OrderbookDeltaEvent}

/-- What a client hears of its symbol is what is left of the deltas it was sent once those from
before its snapshot are passed over. -/
theorem Subscriptions.Ordered.heard (h : f.Ordered client.symbol client.seen (n + 1))
    (hsent : sent.Sublist f.deltas) :
    ((sent.filter fun d => d.symbol = client.symbol).filter fun d => n < d.sequence).Sublist
      (client.since f.deltas) := by
  have hsub := (hsent.filter fun d => d.symbol = client.symbol).filter fun d => n < d.sequence
  have hsplit : (f.deltas.filter fun d => d.symbol = client.symbol).filter
      (fun d => n < d.sequence) = client.since f.deltas := by
    nth_rewrite 1 [← List.take_append_drop client.seen f.deltas]
    rw [List.filter_append, List.filter_append]
    have hold : ((f.deltas.take client.seen).filter fun d => d.symbol = client.symbol).filter
        (fun d => n < d.sequence) = [] := by
      rw [List.filter_eq_nil_iff]
      intro d hd hlt
      obtain ⟨hmem, hs⟩ := List.mem_filter.mp hd
      have hbefore := h.before d hmem (of_decide_eq_true hs)
      have hafter := of_decide_eq_true hlt
      omega
    have hnew : ((f.deltas.drop client.seen).filter fun d => d.symbol = client.symbol).filter
        (fun d => n < d.sequence) =
        (f.deltas.drop client.seen).filter fun d => d.symbol = client.symbol := by
      rw [List.filter_eq_self]
      intro d hd
      obtain ⟨hmem, hs⟩ := List.mem_filter.mp hd
      exact decide_eq_true (h.since d hmem (of_decide_eq_true hs))
    rw [hold, hnew]
    rfl
  rwa [hsplit] at hsub

/-- The numbers of what the client was sent tell it whether it was sent everything: it is intact
and its next number is the counter's exactly when it got every delta since its snapshot and each
number drawn since then went to one of them. Then its copy has all of them. -/
theorem Subscriptions.Ordered.reader (h : f.Ordered client.symbol client.seen (n + 1))
    (hsent : sent.Sublist f.deltas) :
    ((client.reader n sent).intact = true ∧
        (client.reader n sent).last + 1 = f.currentSequence client.symbol ↔
      (∀ d ∈ client.since f.deltas, d ∈ sent) ∧
        n + (client.since f.deltas).length + 1 = f.currentSequence client.symbol) ∧
    ((client.reader n sent).intact = true →
      (client.reader n sent).last + 1 = f.currentSequence client.symbol →
        (client.reader n sent).state = client.copy f.deltas) := by
  have hordered : ((client.since f.deltas).map OrderbookDeltaEvent.sequence).Pairwise (· < ·) :=
    h.ascending.sublist (((List.drop_sublist _ _).filter _).map _)
  have hsorted : ((sent.filter fun d => d.symbol = client.symbol).map
      OrderbookDeltaEvent.sequence).Pairwise (· < ·) :=
    h.ascending.sublist ((hsent.filter _).map _)
  have hrange : ∀ d ∈ client.since f.deltas, n < d.sequence ∧
      d.sequence < f.currentSequence client.symbol := by
    intro d hd
    obtain ⟨hmem, hs⟩ := List.mem_filter.mp hd
    exact ⟨h.since d hmem (of_decide_eq_true hs),
      h.below d (List.mem_of_mem_drop hmem) (of_decide_eq_true hs)⟩
  have hheard := h.heard hsent
  have hall : (∀ d ∈ client.since f.deltas, d ∈ sent) ↔
      (sent.filter fun d => d.symbol = client.symbol).filter (fun d => n < d.sequence) =
        client.since f.deltas := by
    constructor
    · intro hmem
      apply hheard.eq_of_length_le
      apply List.Subperm.length_le
      apply List.subperm_of_subset
      · exact hordered.of_map _ fun _ _ hlt heq => absurd (heq ▸ hlt) (lt_irrefl _)
      · intro d hd
        obtain ⟨hdrop, hs⟩ := List.mem_filter.mp hd
        exact List.mem_filter.mpr ⟨List.mem_filter.mpr ⟨hmem d hd, hs⟩,
          decide_eq_true (hrange d hd).1⟩
    · intro heq d hd
      rw [← heq] at hd
      exact List.mem_of_mem_filter (List.mem_of_mem_filter hd)
  have hiff := Reader.up_to_date_iff (r := ⟨client.opened, n, true⟩)
    (f := OrderbookDeltaEvent.tell client.symbol) rfl hordered hrange hheard
  have hmade := Reader.hear_all (r := ⟨client.opened, n, true⟩)
    (f := OrderbookDeltaEvent.tell client.symbol) rfl (hordered.sublist (hheard.map _))
    fun d hd => (hrange d (hheard.subset hd)).1
  unfold Client.reader
  rw [Reader.hear_new hsorted, hall]
  refine ⟨hiff, fun hin hlast => ?_⟩
  obtain ⟨heq, -⟩ := hiff.mp ⟨hin, hlast⟩
  rw [(hmade.2 hin).1, heq, client.copy_eq_foldl]

end Reading

namespace Line
open Subscriptions AppState
variable {B F : Type} [Upstream B] {l : Line B F} {capacity : ℕ}
  {client : Client} {a : OptionAddr} {n : ℕ}

theorem snapshotBook_hasBook {x : Exchange B} {symbol : String}
    (h : Websocket.snapshotBook x symbol = some a) : x.hasBook a = true := by
  unfold Websocket.snapshotBook at h
  split at h
  · dsimp only at h
    split at h
    · split_ifs at h with hget
      obtain ⟨e, -, he⟩ := Option.bind_eq_some_iff.mp h
      split_ifs at he with hlisted
      obtain rfl := Option.some.inj he
      simp only [Bool.and_eq_true] at hlisted
      simp [Catalog.hasBook, hget, hlisted]
    · cases h
  · cases h

theorem subscribe_draws [Leveled B] (x : Exchange B) (f : Subscriptions) (c : Connection)
    (symbol : Option String) (depth : Option ℕ) :
    Draws f (handleOrderbookSubscribe x f c symbol depth).2 ∧
      (handleOrderbookSubscribe x f c symbol depth).2.deltas = f.deltas := by
  unfold handleOrderbookSubscribe snapshotReply
  split
  · exact ⟨.refl, rfl⟩
  · rename_i symbol' _
    cases Websocket.snapshotBook x symbol' with
    | none => exact ⟨.refl, rfl⟩
    | some b => exact ⟨Draws.refl.number symbol', rfl⟩

/-- What holds while the client follows book `a`. -/
structure Follows (client : Client) (a : OptionAddr) (n : ℕ) (l : Line B F) : Prop where
  grounded : l.state.Grounded
  priced : l.state.Priced
  copied : Copied client a l.state
  ordered : l.state.Ordered client.symbol client.seen n
  read : l.next ≤ l.state.deltas.length
  sent : l.sent.Sublist (l.state.deltas.take l.next)

/-- The state moved on; the receiver did not. -/
theorem Follows.moved (h : Follows client a n l) {s : AppState B F} (hg : s.Grounded)
    (hp : s.Priced) (hc : Copied client a s) (hd : Draws l.state.toSubscriptions s.toSubscriptions) :
    Follows client a n { l with state := s } where
  grounded := hg
  priced := hp
  copied := hc
  ordered := h.ordered.draws hd
  read := h.read.trans hd.extends.length_le
  sent := by
    obtain ⟨more, hmore⟩ := hd.extends
    show l.sent.Sublist (s.deltas.take l.next)
    rw [← hmore, List.take_append_of_le_length h.read]
    exact h.sent

theorem Follows.recv [Leveled B] [F64 F] (h : Follows client a n l) :
    Follows client a n (l.step capacity .recv) := by
  have hle : (Broadcast.recv capacity l.state.deltas l.next).2 ≤ l.state.deltas.length :=
    Broadcast.recv_le h.read
  have hge := Broadcast.le_recv capacity l.state.deltas l.next
  cases hrecv : Broadcast.recv capacity l.state.deltas l.next with
  | mk got next =>
    rw [hrecv] at hle hge
    have hmono : l.sent.Sublist (l.state.deltas.take next) := Broadcast.got_mono h.sent hge
    simp only [Line.step, hrecv]
    cases got with
    | item d =>
      refine ⟨h.grounded, h.priced, h.copied, h.ordered, hle, ?_⟩
      dsimp only
      split_ifs
      · exact Broadcast.got_item h.sent hrecv
      · exact hmono
    | lagged k => exact ⟨h.grounded, h.priced, h.copied, h.ordered, hle, hmono⟩
    | empty => exact ⟨h.grounded, h.priced, h.copied, h.ordered, hle, hmono⟩

variable [Leveled B] [F64 F] [LawfulUpstream B]

theorem Follows.step (h : Follows client a n l) {i : LineStep F} (hi : l.Followed a i) :
    Follows client a n (l.step capacity i) := by
  cases i with
  | request r =>
    exact h.moved (h.grounded.step r) (Priced.calls.step Priced.rest h.grounded h.priced r)
      (h.copied.step h.grounded h.priced hi) (step_draws h.grounded r)
  | subscribe c symbol depth =>
    obtain ⟨hdraws, hdeltas⟩ := subscribe_draws l.state.market l.state.toSubscriptions c symbol depth
    exact h.moved (h.grounded.withFeed _) (h.priced.withFeed h.grounded _)
      (h.copied.withFeed hdeltas) hdraws
  | recv => exact h.recv

section Opened
variable [LawfulLeveled B] {s₀ : AppState B F} {c c' : Connection} {f' : Subscriptions}
  {symbol symbol' : String} {depth : Option ℕ} {bids asks : List PriceLevelData}
  {ok : AppState B F → Request F → Prop}

/-- The client just got its snapshot; its receiver may still be behind. -/
theorem Follows.open (h₀ : Reaches Start AppState.step ok s₀)
    (hb : Websocket.snapshotBook s₀.market symbol = some a) (hsym : s₀.market.symbols a = symbol)
    (hfull : FullDepth (s₀.market.books a) (depth.getD 10))
    (hout : handleOrderbookSubscribe s₀.market s₀.toSubscriptions c (some symbol) depth = (c', f'))
    (hsent : c'.sent = c.sent ++ [.subscribed "orderbook" symbol,
      .orderbookSnapshot "orderbook" symbol' n bids asks])
    (hstate : l.state = s₀.withFeed f') (hread : l.next ≤ s₀.deltas.length) (hnone : l.sent = []) :
    Follows (.answered symbol s₀.deltas.length bids asks) a (n + 1) l := by
  obtain ⟨hg, hp⟩ := Priced.reached h₀
  obtain ⟨rfl, rfl, -, rfl, rfl⟩ := Websocket.snapshot_answered hb hout hsent
  have hcopied : Copied (.answered symbol s₀.deltas.length
      (Leveled.levels (s₀.market.books a) (depth.getD 10) .buy)
      (Leveled.levels (s₀.market.books a) (depth.getD 10) .sell)) a s₀ := by
    refine ⟨Nat.le_refl _, snapshotBook_hasBook hb, hsym, ?_⟩
    have hlisting := listing_replicates hfull
    simp only [Level.listing, List.flatMap_cons, List.flatMap_nil, List.append_nil] at hlisting
    simp only [Client.copy, Client.answered, List.drop_length, List.filterMap_nil,
      Table.putAll_nil]
    exact hlisting
  have hnumber := currentSequence_number s₀.toSubscriptions symbol symbol
  rw [if_pos rfl] at hnumber
  have hordered := ((reaches_ordered h₀ symbol).draws (Draws.refl.number symbol)).now
  rw [hnumber] at hordered
  refine ⟨?_, ?_, ?_, ?_, ?_, ?_⟩
  · rw [hstate]
    exact hg.withFeed _
  · rw [hstate]
    exact hp.withFeed hg _
  · rw [hstate]
    exact hcopied.withFeed rfl
  · rw [hstate]
    exact hordered
  · rw [hstate]
    exact hread
  · rw [hnone]
    exact List.nil_sublist _

end Opened

section Reference

/-- A client subscribes once the sell of 5 rests. -/
def subscribed : Connection × Subscriptions :=
  handleOrderbookSubscribe asked.market asked.toSubscriptions ⟨∅, ∅, []⟩
    (some "BTC-19700131-10000-C") none

/-- Its receiver has not read the delta of the sell yet. -/
def opened : Line ReferenceBook ℚ :=
  ⟨asked.withFeed subscribed.2, subscribed.1.subscribedSymbols, 0, []⟩

/-- 2 are taken, and the receiver reads both deltas. -/
def caughtUp : List (LineStep ℚ) :=
  [.request (.submitMarketOrder ⟨"BTC", "30", 10000, "call"⟩ ⟨.buy, 2⟩), .recv, .recv]

/-- A channel that keeps one delta only loses the taking, and the client sees it. -/
example :
    let l := (.request (.addOrder ⟨"BTC", "30", 10000, "call"⟩ ⟨.buy, 99, 4, none, none⟩) ::
      caughtUp).foldl (Line.step 1) opened
    ((Client.answered "BTC-19700131-10000-C" 1 [] [⟨100, 5⟩]).reader 1 l.sent).intact = false := by
  decide +kernel

end Reference
end Line
end OptionChainBackend
