import OptionChainBackend.Feed.Delivery
import OptionChainBackend.Feed.SubscriptionLaws

/-!
What a wildcard delivers. The underlying of a symbol is read off as what stands before its first
dash, so a wildcard stands for its underlying exactly when no name holds a dash.
-/
namespace OptionChainBackend
open Foundation Upstream MarketMaker Auth

namespace Exchange
variable {B : Type} [Upstream B] {x : Exchange B} {a : OptionAddr}

/-- The calls any handler or the engine makes on the books. -/
inductive Call
  | getOrCreate (underlying : String)
  | getOrCreateExpiration (underlying : String) (e : ExpirationDate)
  | getOrCreateStrike (underlying : String) (e : ExpirationDate) (strike : ℕ)
  | remove (underlying : String)
  | newOrderId
  | addLimit (a : OptionAddr) (id : OrderId) (side : Side) (price quantity : ℕ) (tif : TimeInForce)
  | submitMarket (a : OptionAddr) (id : OrderId) (quantity : ℕ) (side : Side)
  | cancel (a : OptionAddr) (id : OrderId)
  | restore (a : OptionAddr) (snapshot : OrderBookSnapshot)
  | tick (ms : ℕ)

def call (x : Exchange B) : Call → Exchange B
  | .getOrCreate u => x.getOrCreate u
  | .getOrCreateExpiration u e => x.getOrCreateExpiration u e
  | .getOrCreateStrike u e strike => x.getOrCreateStrike u e strike
  | .remove u => x.remove u
  | .newOrderId => x.newOrderId.2
  | .addLimit a id side price quantity tif =>
    (x.addLimitOrderWithTif a id side price quantity tif).2
  | .submitMarket a id quantity side => (x.submitMarketOrder a id quantity side).2
  | .cancel a id => (x.cancelOrder a id).2
  | .restore a snapshot => (x.restoreFromSnapshot a snapshot).2
  | .tick ms => x.tick ms

/-- Every listed strike has the symbols it was created with. -/
def Labeled (x : Exchange B) : Prop :=
  ∀ a, a.strike ∈ x.strikes a.underlying a.expiration → ∃ now, x.symbols a = bookSymbol B now a

theorem Labeled.init : Labeled (Exchange.init : Exchange B) := by
  intro a ha
  cases ha

theorem Labeled.of_catalog {x' : Exchange B} (h : x.Labeled) (hs : x'.strikes = x.strikes)
    (hsym : x'.symbols = x.symbols) : x'.Labeled := by
  intro a ha
  rw [hsym]
  exact h a (hs ▸ ha)

theorem Labeled.getOrCreateStrike (h : x.Labeled) (u : String) (e : ExpirationDate) (strike : ℕ) :
    (x.getOrCreateStrike u e strike).Labeled := by
  unfold Exchange.getOrCreateStrike
  split_ifs with hlisted
  · exact h
  · intro a ha
    dsimp only
    split_ifs with hnew
    · exact ⟨x.now, rfl⟩
    · refine h a ?_
      dsimp only at ha
      by_cases hu : a.underlying = u
      · rw [hu, Function.update_self] at ha
        by_cases he : a.expiration = e
        · rw [he, Function.update_self] at ha
          have hne : a.strike ≠ strike := fun hk => hnew ⟨hu, he, hk⟩
          rw [hu, he]
          simpa [hne] using ha
        · rw [Function.update_of_ne he] at ha
          rwa [hu]
      · rwa [Function.update_of_ne hu] at ha

theorem Labeled.remove (h : x.Labeled) (u : String) : (x.remove u).Labeled := by
  intro a ha
  refine h a ?_
  dsimp only [Exchange.remove] at ha
  by_cases hu : a.underlying = u
  · rw [hu, Function.update_self] at ha
    cases ha
  · rwa [Function.update_of_ne hu] at ha

theorem Labeled.call (h : x.Labeled) (i : Call) : (x.call i).Labeled := by
  cases i with
  | getOrCreate u =>
    have hlists : (x.getOrCreate u).strikes = x.strikes ∧
        (x.getOrCreate u).symbols = x.symbols := by
      unfold Exchange.getOrCreate
      split_ifs <;> simp
    exact h.of_catalog hlists.1 hlists.2
  | getOrCreateExpiration u e =>
    have hlists : (x.getOrCreateExpiration u e).strikes = x.strikes ∧
        (x.getOrCreateExpiration u e).symbols = x.symbols := by
      unfold Exchange.getOrCreateExpiration
      split_ifs <;> simp
    exact h.of_catalog hlists.1 hlists.2
  | getOrCreateStrike u e strike => exact h.getOrCreateStrike u e strike
  | remove u => exact h.remove u
  | newOrderId => exact h.of_catalog rfl rfl
  | addLimit a id side price quantity tif => exact h.of_catalog rfl rfl
  | submitMarket a id quantity side => exact h.of_catalog rfl rfl
  | cancel a id => exact h.of_catalog rfl rfl
  | restore a snapshot => exact h.of_catalog rfl rfl
  | tick ms => exact h.of_catalog rfl rfl

/-- The symbol a delta or a trade of the book goes out under: the book's own, or the one of the
request. -/
def Publishes (x : Exchange B) (a : OptionAddr) (symbol : String) : Prop :=
  symbol = x.symbols a ∨ ∃ expStr, symbol = symbolOf a.underlying expStr a.strike a.style

end Exchange

/-- The books name themselves `UNDERLYING-EXPIRATION-STRIKE-STYLE`. -/
def Symbolic (B : Type) [Upstream B] : Prop :=
  ∀ now a, ∃ expStr, bookSymbol B now a = symbolOf a.underlying expStr a.strike a.style

theorem ReferenceBook.symbolic : Symbolic ReferenceBook := by
  intro now a
  refine ⟨((ReferenceBook.getDate now a.expiration).map Calendar.formatYmd).getD "", ?_⟩
  change ReferenceBook.bookSymbol now a = _
  unfold ReferenceBook.bookSymbol symbolOf
  cases a.style <;> rfl

namespace Websocket
open Connection
variable {B F : Type} [Upstream B] [Leveled B] [F64 F] {display : F → String}
  {permissions : List Permission} {x : Exchange B} {a : OptionAddr} {symbol u u' : String}
  {entries : Finset String}

theorem wildcard_inj : wildcard u = wildcard u' ↔ u = u' := by
  constructor
  · intro h
    have hlist := congrArg String.toList h
    simpa [wildcard, String.toList_inj] using hlist
  · exact congrArg wildcard

/-- What stands before the first dash of a text. -/
def firstSegment (s : String) : String := String.ofList (s.toList.takeWhile (· ≠ '-'))

theorem takeWhile_dash (cs rest : List Char) :
    (cs ++ '-' :: rest).takeWhile (· ≠ '-') = cs.takeWhile (· ≠ '-') := by
  induction cs with
  | nil => simp
  | cons c cs ih =>
    by_cases hc : c = '-'
    · simp [hc]
    · simpa [hc] using ih

theorem firstSegment_eq_self_iff {s : String} : firstSegment s = s ↔ '-' ∉ s.toList := by
  have hself : s.toList.takeWhile (· ≠ '-') = s.toList ↔ '-' ∉ s.toList := by
    simp [List.takeWhile_eq_self_iff]
    constructor
    · exact fun h hmem => h '-' hmem rfl
    · rintro h c hc rfl
      exact h hc
  constructor
  · intro h
    apply hself.mp
    simpa [firstSegment] using congrArg String.toList h
  · intro h
    simp only [firstSegment, hself.mpr h, String.ofList_toList]

theorem subscriptionMatches_symbolOf {expStr : String} {strike : ℕ} {style : OptionStyle} :
    subscriptionMatches entries (symbolOf u expStr strike style) = true ↔
      symbolOf u expStr strike style ∈ entries ∨ wildcard (firstSegment u) ∈ entries := by
  have hlist : (symbolOf u expStr strike style).toList = u.toList ++ '-' ::
      (expStr ++ "-" ++ toString strike ++ "-" ++ Desk.styleChar style).toList := by
    simp [symbolOf]
  have hdash : '-' ∈ (symbolOf u expStr strike style).toList := by
    simp [hlist]
  unfold subscriptionMatches
  rw [Bool.or_eq_true, Bool.and_eq_true, decide_eq_true_eq, decide_eq_true_eq, decide_eq_true_eq]
  simp only [hdash, true_and]
  rw [hlist, takeWhile_dash]
  rfl

/-- No symbol of a book is a wildcard. -/
theorem symbolOf_ne_wildcard {expStr : String} {strike : ℕ} {style : OptionStyle} :
    symbolOf u expStr strike style ≠ wildcard u' := by
  have hends : ∀ s : String, s ++ "C" ≠ u' ++ ":*" ∧ s ++ "P" ≠ u' ++ ":*" := by
    intro s
    constructor <;>
      · intro h
        have hlast := congrArg (fun s : String => s.toList.getLast?) h
        simp at hlast
  cases style with
  | call => exact (hends _).1
  | put => exact (hends _).2

/-- A wildcard subscription on a fresh connection is the only entry there is. -/
theorem reaches_wildcard (display : F → String) (permissions : List Permission) (u : String) :
    ∃ c, Reaches (· = fresh) (turn (B := B) display permissions) (fun _ _ => True) c ∧
      c.tracked .orderbook = {wildcard u} := by
  have hstart : Reaches (· = fresh) (turn (B := B) display permissions) (fun _ _ => True) fresh :=
    .start rfl
  refine ⟨_, hstart.next (i := .subscribe ⟨.orderbook, none, some u⟩) trivial, ?_⟩
  simp [turn, processChannelSubscription, processChannel, subscribeEntry, tracked, fresh,
    canAddSubscription, maxSubscriptionsPerConnection]

/-- A book's deltas and trades reach those who subscribed to its symbol or to its underlying, and
nobody else, exactly when the name of the underlying holds no dash. -/
theorem wildcard_exact_iff (hs : Symbolic B) (display : F → String)
    (permissions : List Permission)
    (hx : Reaches (· = Exchange.init) Exchange.call (fun _ _ => True) x)
    (hb : x.hasBook a = true) (hp : x.Publishes a symbol) :
    (∀ c, Reaches (· = fresh) (turn (B := B) display permissions) (fun _ _ => True) c → ∀ ch,
      ch.kept = true → (subscriptionMatches (c.tracked ch) symbol = true ↔
        symbol ∈ c.tracked ch ∨ wildcard a.underlying ∈ c.tracked ch)) ↔
      '-' ∉ a.underlying.toList := by
  obtain ⟨expStr, rfl⟩ : ∃ expStr, symbol = symbolOf a.underlying expStr a.strike a.style := by
    rcases hp with rfl | hp
    · have hlabel : x.Labeled := hx.invariant (by rintro _ rfl; exact .init)
        fun x i h _ => h.call i
      simp only [Catalog.hasBook, Bool.and_eq_true, Catalog.getStrike, decide_eq_true_eq] at hb
      obtain ⟨now, hnow⟩ := hlabel a hb.2
      obtain ⟨expStr, he⟩ := hs now a
      exact ⟨expStr, hnow.trans he⟩
    · exact hp
  rw [← firstSegment_eq_self_iff]
  constructor
  · intro h
    obtain ⟨c, hc, hset⟩ := reaches_wildcard (B := B) display permissions a.underlying
    have hown := h c hc .orderbook rfl
    rw [hset, subscriptionMatches_symbolOf] at hown
    have hmatch := hown.mpr (.inr (Finset.mem_singleton_self _))
    rcases hmatch with hsym | hfirst
    · exact absurd (Finset.mem_singleton.mp hsym) symbolOf_ne_wildcard
    · exact wildcard_inj.mp (Finset.mem_singleton.mp hfirst)
  · intro h c _ ch _
    rw [subscriptionMatches_symbolOf, h]

section Names

theorem reaches_openBook (a : OptionAddr) :
    Reaches (· = Exchange.init) Exchange.call (fun _ _ => True)
      ((Exchange.init : Exchange ReferenceBook).openBook a) := by
  have hstart : Reaches (· = Exchange.init) Exchange.call (fun _ _ => True)
      (Exchange.init : Exchange ReferenceBook) := .start rfl
  have hcalls : Allowed Exchange.call (fun _ _ => True) (Exchange.init : Exchange ReferenceBook)
      [.getOrCreate a.underlying, .getOrCreateExpiration a.underlying a.expiration,
        .getOrCreateStrike a.underlying a.expiration a.strike] :=
    ⟨trivial, trivial, trivial, trivial⟩
  exact hstart.run hcalls

theorem reaches_subscribedTo (subs : List ChannelSubscription) :
    Reaches (· = fresh) (turn (B := ReferenceBook) (fun _ : ℚ => "") []) (fun _ _ => True)
      (subscribedTo subs) := by
  have hstart : Reaches (· = fresh) (turn (B := ReferenceBook) (fun _ : ℚ => "") [])
      (fun _ _ => True) fresh := .start rfl
  exact hstart.next (i := batchOf subs) trivial

theorem wildcard_exact_plain : subscriptionMatches
    ((subscribedTo [⟨.trades, none, some "BTC"⟩]).tracked .trades) "BTC-19700131-10000-C" = true ↔
      "BTC-19700131-10000-C" ∈ (subscribedTo [⟨.trades, none, some "BTC"⟩]).tracked .trades ∨
      wildcard "BTC" ∈ (subscribedTo [⟨.trades, none, some "BTC"⟩]).tracked .trades := by
  have hb : thirtyDays.hasBook btcCall = true := by decide +kernel
  have hp : thirtyDays.Publishes btcCall "BTC-19700131-10000-C" := .inl (by decide +kernel)
  exact (wildcard_exact_iff ReferenceBook.symbolic _ [] (reaches_openBook btcCall) hb hp).mpr
    (by decide +kernel) _ (reaches_subscribedTo _) .trades rfl

def dashedCall : OptionAddr := ⟨"BTC-USD", .days 30, 10000, .call⟩

/-- A wildcard on `BTC-USD` delivers nothing of it; one on `BTC` does. -/
theorem wildcard_misdirected : ¬ ∀ (x : Exchange ReferenceBook) (a : OptionAddr) (symbol : String),
    Reaches (· = Exchange.init) Exchange.call (fun _ _ => True) x → x.hasBook a = true →
    x.Publishes a symbol → ∀ c,
    Reaches (· = fresh) (turn (B := ReferenceBook) (fun _ : ℚ => "") []) (fun _ _ => True) c →
    ∀ ch, ch.kept = true → (subscriptionMatches (c.tracked ch) symbol = true ↔
      symbol ∈ c.tracked ch ∨ wildcard a.underlying ∈ c.tracked ch) := by
  intro h
  have hb : ((Exchange.init : Exchange ReferenceBook).openBook dashedCall).hasBook dashedCall =
      true := by decide +kernel
  have hlaw := h _ dashedCall "BTC-USD-19700131-10000-C" (reaches_openBook dashedCall) hb
    (.inl (by decide +kernel)) _ (reaches_subscribedTo [⟨.orderbook, none, some "BTC-USD"⟩])
    .orderbook rfl
  exact absurd hlaw (by decide +kernel)

/-- The wildcard of one underlying delivers the deltas of another. -/
example : subscriptionMatches ((subscribedTo [⟨.orderbook, none, some "BTC"⟩]).tracked .orderbook)
    "BTC-USD-19700131-10000-C" = true := by decide +kernel

end Names

end Websocket
end OptionChainBackend
