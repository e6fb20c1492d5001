import OptionChainBackend.Feed.Depth
import OptionChainBackend.Foundation.Runs

/-!
Concurrent requests on one option book. A user's request calls the book and then publishes the
levels it changed: it reads a level back, draws a sequence number, broadcasts. A subscriber reads
the book, draws a number from the same counters, and sends. The requests step in any order.
-/
namespace OptionChainBackend
open Foundation Foundation.Decimal Upstream MarketMaker Exchange

/-- What a subscriber read: `source` is the book, `seen` how many changes of the followed book had
been made (both are history). -/
structure SnapshotRead where
  symbol : String
  depth : ℕ
  bids : List PriceLevelData
  asks : List PriceLevelData
  source : OptionAddr
  seen : ℕ
  deriving DecidableEq, Repr

/-- An `orderbook_snapshot` message. -/
structure SnapshotSent extends SnapshotRead where
  sequence : ℕ
  deriving DecidableEq, Repr

/-- A delta with its number; `born` is history: which change of the book its request made. -/
structure DrawnDelta where
  born : ℕ
  level : Level
  event : OrderbookDeltaEvent
  deriving DecidableEq, Repr

/-- Where a request stands: what it does in its next step. -/
inductive RequestPc where
  | idle
  | reading (born : ℕ) (levels : List Level)
  | drawing (born : ℕ) (level : Level) (quantity : ℕ) (levels : List Level)
  | sending (drawn : DrawnDelta) (levels : List Level)
  | numbering (read : SnapshotRead)
  | replying (snapshot : SnapshotSent)
  deriving DecidableEq, Repr

namespace RequestPc

/-- The levels a request has still to draw a number for. -/
def owed : RequestPc → List Level
  | .reading _ levels => levels
  | .drawing _ level _ levels => level :: levels
  | .sending _ levels => levels
  | _ => []

/-- The change of the book the request publishes. -/
def born : RequestPc → ℕ
  | .reading born _ => born
  | .drawing born _ _ _ => born
  | .sending drawn _ => drawn.born
  | _ => 0

end RequestPc

/-- `history` holds the followed book after each change so far, `drawn` the numbered deltas in the
order of their numbers. No step reads either. -/
structure Feed (B ι : Type) extends Subscriptions where
  market : Exchange B
  requests : ι → RequestPc
  snapshots : List SnapshotSent
  history : List B
  drawn : List DrawnDelta

/-- One step: a request begins with its book call, a subscription with its read of the book,
and `go` is the next step of a request under way. -/
inductive FeedStep (ι : Type) where
  | call (i : ι) (c : UserCall)
  | subscribe (i : ι) (symbol : String) (depth : Option ℕ)
  | go (i : ι)
  | tick (ms : ℕ)
  deriving DecidableEq, Repr

namespace Feed
variable {B ι : Type} [Upstream B] [Leveled B] [DecidableEq ι]

def moved (s : Feed B ι) (i : ι) (pc : RequestPc) : Feed B ι :=
  { s with requests := Function.update s.requests i pc }

/-- The exchange changed. -/
def changed (s : Feed B ι) (a : OptionAddr) (x : Exchange B) : Feed B ι :=
  { s with market := x, history := s.history ++ [x.books a] }

def numbered (s : Feed B ι) (symbol : String) : Feed B ι :=
  { s with toSubscriptions := (s.nextSequence symbol).2 }

def readOf (s : Feed B ι) (symbol : String) (depth : Option ℕ) : Option SnapshotRead :=
  (Websocket.snapshotBook s.market symbol).map fun b =>
    ⟨symbol, depth.getD 10, Leveled.levels (s.market.books b) (depth.getD 10) .buy,
      Leveled.levels (s.market.books b) (depth.getD 10) .sell, b, s.history.length - 1⟩

def drawnFor (s : Feed B ι) (a : OptionAddr) (born : ℕ) (level : Level) (quantity : ℕ) :
    DrawnDelta :=
  ⟨born, level, Subscriptions.buildLevelDelta (s.market.symbols a) level.side level.price quantity
    (s.nextSequence (s.market.symbols a)).1⟩

/-- The next step of request `i`, standing at the given point. -/
def goOn (a : OptionAddr) (s : Feed B ι) (i : ι) : RequestPc → Feed B ι
  | .idle => s
  | .reading _ [] => s.moved i .idle
  | .reading born (level :: levels) =>
    s.moved i (.drawing born level (s.market.levelQuantity a level) levels)
  | .drawing born level quantity levels =>
    let d := s.drawnFor a born level quantity
    { (s.numbered (s.market.symbols a)).moved i (.sending d levels) with drawn := s.drawn ++ [d] }
  | .sending d levels =>
    { s.moved i (.reading d.born levels) with deltas := s.deltas ++ [d.event] }
  | .numbering r => (s.numbered r.symbol).moved i (.replying ⟨r, (s.nextSequence r.symbol).1⟩)
  | .replying m => { s.moved i .idle with snapshots := s.snapshots ++ [m] }

def go (a : OptionAddr) (i : ι) (s : Feed B ι) : Feed B ι := s.goOn a i (s.requests i)

/-- A step of the requests on book `a`. A request that is under way begins nothing else. -/
def step (a : OptionAddr) (s : Feed B ι) : FeedStep ι → Feed B ι
  | .call i c =>
    if s.requests i = .idle then
      (s.changed a (c.apply s.market a).1).moved i
        (.reading s.history.length (c.apply s.market a).2)
    else s
  | .subscribe i symbol depth =>
    if s.requests i = .idle then
      match s.readOf symbol depth with
      | some r => s.moved i (.numbering r)
      | none => s
    else s
  | .go i => s.go a i
  | .tick ms => s.changed a (s.market.tick ms)

section Alone
variable {a : OptionAddr} {s : Feed B ι} {i : ι} {born : ℕ} {levels : List Level}

omit [Leveled B] in
theorem go_eq {pc : RequestPc} (h : s.requests i = pc) : s.go a i = s.goOn a i pc := by
  rw [go, h]

omit [Upstream B] [Leveled B] in
@[simp] theorem moved_self (s : Feed B ι) (i : ι) (pc : RequestPc) :
    (s.moved i pc).requests i = pc := Function.update_self _ _ _

omit [Leveled B] in
/-- Three steps of one request publish one level. -/
theorem publish_one {level : Level} (h : s.requests i = .reading born (level :: levels)) :
    ∃ s', (go a i)^[3] s = s' ∧ s'.requests i = .reading born levels ∧ s'.market = s.market ∧
      s'.toSubscriptions = s.toSubscriptions.publish s.market a level := by
  have h1 : s.go a i = s.moved i (.drawing born level (s.market.levelQuantity a level) levels) :=
    go_eq h
  have h2 : (s.go a i).go a i = (s.go a i).goOn a i
      (.drawing born level (s.market.levelQuantity a level) levels) := go_eq (by rw [h1, moved_self])
  have h3 : ((s.go a i).go a i).go a i = ((s.go a i).go a i).goOn a i
      (.sending (s.drawnFor a born level (s.market.levelQuantity a level)) levels) :=
    go_eq (by
      rw [h2, h1]
      exact moved_self _ _ _)
  refine ⟨((s.go a i).go a i).go a i, rfl, ?_⟩
  rw [h3, h2, h1]
  exact ⟨moved_self _ _ _, rfl, rfl⟩

omit [Leveled B] in
/-- A request that no other request interrupts publishes its levels one after the other, as the
handlers do. -/
theorem publish_alone (h : s.requests i = .reading born levels) :
    ∃ s', (go a i)^[3 * levels.length + 1] s = s' ∧ s'.requests i = .idle ∧
      s'.market = s.market ∧ s'.toSubscriptions =
        levels.foldl (fun f level => f.publish s.market a level) s.toSubscriptions := by
  induction levels generalizing s with
  | nil => exact ⟨s.moved i .idle, by simp [go, goOn, h], by simp [moved], rfl, rfl⟩
  | cons level levels ih =>
    obtain ⟨s₁, hrun, hpc, hm, hsub⟩ := publish_one (a := a) h
    obtain ⟨s', hrest, hidle, hm', hsub'⟩ := ih hpc
    refine ⟨s', ?_, hidle, hm'.trans hm, ?_⟩
    · have hlen : 3 * (level :: levels).length + 1 = 3 * levels.length + 1 + 3 := by
        rw [List.length_cons]
        omega
      rw [hlen, Function.iterate_add_apply, hrun, hrest]
    · rw [hsub', hm, hsub]
      rfl

end Alone

/-- No request is under way, and nothing was published yet. -/
structure Start (a : OptionAddr) (s : Feed B ι) : Prop where
  fresh : s.market.Fresh
  requests : ∀ i, s.requests i = .idle
  deltas : s.deltas = []
  snapshots : s.snapshots = []
  history : s.history = [s.market.books a]
  drawn : s.drawn = []

/-- Every request has returned. -/
def Settled (s : Feed B ι) : Prop := ∀ i, s.requests i = .idle

/-- The last entry of the history is the book as it is. -/
def Current (a : OptionAddr) (s : Feed B ι) : Prop :=
  s.history.getLast? = some (s.market.books a)

namespace Current
variable {a : OptionAddr} {s : Feed B ι}

theorem step (h : Current a s) (st : FeedStep ι) : Current a (s.step a st) := by
  cases st with
  | call i c =>
    show Current a (if s.requests i = .idle then _ else s)
    split_ifs
    · exact List.getLast?_concat
    · exact h
  | subscribe i symbol depth =>
    show Current a (if s.requests i = .idle then _ else s)
    split_ifs
    · cases s.readOf symbol depth <;> exact h
    · exact h
  | tick ms => exact List.getLast?_concat
  | go i =>
    show Current a (s.goOn a i (s.requests i))
    cases s.requests i with
    | reading born levels => cases levels <;> exact h
    | _ => exact h

theorem reached {ok : Feed B ι → FeedStep ι → Prop}
    (h : Reaches (Start a) (Feed.step a) ok s) : Current a s :=
  h.invariant (fun s hs => by simp [Current, hs.history]) fun s st hs _ => hs.step st

omit [Upstream B] [Leveled B] [DecidableEq ι] in
theorem history_ne_nil (h : Current a s) : s.history ≠ [] := by
  intro hnil
  unfold Current at h
  simp [hnil] at h

end Current

end Feed
end OptionChainBackend
