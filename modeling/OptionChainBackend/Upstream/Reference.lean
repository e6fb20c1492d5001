import Mathlib.Data.List.Sort
import OptionChainBackend.Upstream.Book

/-!
A price-time-priority book that meets `LawfulUpstream`. It is the instance on which concrete
histories are evaluated; no general result about the backend depends on it.
-/
namespace OptionChainBackend

/-- Resting orders in arrival order. -/
structure ReferenceBook where
  orders : List RestingOrder
  nodup : (orders.map RestingOrder.id).Nodup
  positive : ∀ o ∈ orders, 0 < o.visibleQuantity

namespace ReferenceBook

def getOrder (b : ReferenceBook) (i : OrderId) : Option RestingOrder :=
  b.orders.find? fun o => o.id = i

/-- Better-priced makers come first for a taker on `side`. -/
def Better (side : Side) (o o' : RestingOrder) : Prop :=
  match side with
  | .buy => o.price ≤ o'.price
  | .sell => o'.price ≤ o.price

instance (side : Side) : DecidableRel (Better side) := fun o o' => by
  unfold Better
  split <;> infer_instance

/-- The orders a taker can trade with, in the order it meets them. -/
def makers (b : ReferenceBook) (side : Side) (limit : Option ℕ) : List RestingOrder :=
  (b.orders.filter fun o => o.side = side.opposite ∧ Crosses side limit o.price).insertionSort
    (Better side)

/-- Trade with one maker after the other; the trades and the quantity left. -/
def sweep (now : ℕ) (id : OrderId) : List RestingOrder → ℕ → TradeId → List Trade × ℕ
  | [], q, _ => ([], q)
  | o :: os, q, k =>
    if q = 0 then ([], 0)
    else
      let f := min q o.visibleQuantity
      let rest := sweep now id os (q - f) (k + 1)
      (⟨k, id, o.id, o.price, f, now⟩ :: rest.1, rest.2)

def matchTaker (b : ReferenceBook) (now : ℕ) (k : TradeId) (id : OrderId) (side : Side)
    (limit : Option ℕ) (q : ℕ) : MatchResult :=
  let out := sweep now id (b.makers side limit) q k
  ⟨out.1, out.2, decide (out.2 = 0)⟩

section Sweep
variable (now : ℕ) (id : OrderId) (os : List RestingOrder) (q : ℕ) (k : TradeId)

theorem sweep_conserves : ((sweep now id os q k).1.map Trade.quantity).sum +
    (sweep now id os q k).2 = q := by
  induction os generalizing q k with
  | nil => simp [sweep]
  | cons o os ih =>
    by_cases hq : q = 0
    · simp [sweep, hq]
    · have h := ih (q - min q o.visibleQuantity) (k + 1)
      simp only [sweep, hq, if_false, List.map_cons, List.sum_cons]
      omega

theorem sweep_tradeIds : (sweep now id os q k).1.map Trade.tradeId =
    List.range' k (sweep now id os q k).1.length := by
  induction os generalizing q k with
  | nil => simp [sweep]
  | cons o os ih =>
    by_cases hq : q = 0
    · simp [sweep, hq]
    · simp only [sweep, hq, if_false, List.map_cons, List.length_cons, List.range'_succ]
      rw [ih]

variable {now id os q k}

theorem sweep_mem {t : Trade} (h : t ∈ (sweep now id os q k).1) :
    t.takerOrderId = id ∧ ∃ o ∈ os, t.makerOrderId = o.id ∧ t.price = o.price ∧
      (0 < o.visibleQuantity → 0 < t.quantity) := by
  induction os generalizing q k with
  | nil => simp [sweep] at h
  | cons o os ih =>
    by_cases hq : q = 0
    · simp [sweep, hq] at h
    · simp only [sweep, hq, if_false, List.mem_cons] at h
      rcases h with rfl | h
      · refine ⟨rfl, o, List.mem_cons_self, rfl, rfl, fun ho => ?_⟩
        exact lt_min (Nat.pos_of_ne_zero hq) ho
      · obtain ⟨ht, o', ho', hr⟩ := ih h
        exact ⟨ht, o', List.mem_cons_of_mem _ ho', hr⟩

theorem sweep_absent {i : OrderId} (h : ∀ o ∈ os, o.id ≠ i) :
    makerFilled (sweep now id os q k).1 i = 0 := by
  have hf : ∀ t ∈ (sweep now id os q k).1, t.makerOrderId ≠ i := by
    intro t ht
    obtain ⟨-, o, ho, hid, -⟩ := sweep_mem ht
    exact hid ▸ h o ho
  have hnil : (sweep now id os q k).1.filter (fun t => t.makerOrderId = i) = [] := by
    simpa using hf
  simp [makerFilled, hnil]

theorem sweep_filled (hn : (os.map RestingOrder.id).Nodup) {o : RestingOrder} (ho : o ∈ os) :
    makerFilled (sweep now id os q k).1 o.id ≤ o.visibleQuantity ∧
      (0 < (sweep now id os q k).2 →
        makerFilled (sweep now id os q k).1 o.id = o.visibleQuantity) := by
  induction os generalizing q k with
  | nil => simp at ho
  | cons o' os ih =>
    by_cases hq : q = 0
    · simp [sweep, hq, makerFilled]
    · simp only [sweep, hq, if_false]
      rw [List.map_cons, List.nodup_cons] at hn
      have hcons : ∀ (t : Trade) (ts : List Trade), makerFilled (t :: ts) o.id =
          (if t.makerOrderId = o.id then t.quantity else 0) + makerFilled ts o.id := by
        intro t ts
        by_cases h : t.makerOrderId = o.id <;> simp [makerFilled, h]
      rw [hcons]
      have hsum := sweep_conserves now id os (q - min q o'.visibleQuantity) (k + 1)
      rcases List.mem_cons.mp ho with rfl | ho
      · have habs : makerFilled (sweep now id os (q - min q o.visibleQuantity) (k + 1)).1 o.id =
            0 := by
          apply sweep_absent
          intro o' ho' he
          exact hn.1 (List.mem_map.mpr ⟨o', ho', he⟩)
        rw [habs, if_pos rfl]
        dsimp only
        omega
      · have hne : o'.id ≠ o.id := fun he => hn.1 (List.mem_map.mpr ⟨o, ho, he.symm⟩)
        rw [if_neg hne, Nat.zero_add]
        exact ih hn.2 ho

end Sweep

variable (b : ReferenceBook)

theorem mem_iff_getOrder (o : RestingOrder) : o ∈ b.orders ↔ b.getOrder o.id = some o := by
  unfold getOrder
  constructor
  · intro h
    cases hf : b.orders.find? (fun x => x.id = o.id) with
    | none => simp [List.find?_eq_none] at hf; exact absurd rfl (hf o h)
    | some o' =>
      have hid : o'.id = o.id := by simpa using List.find?_some hf
      have hm : o' ∈ b.orders := List.mem_of_find?_eq_some hf
      rw [List.inj_on_of_nodup_map b.nodup hm h hid]
  · exact List.mem_of_find?_eq_some

theorem getOrder_id {i : OrderId} {o : RestingOrder} (h : b.getOrder i = some o) : o.id = i := by
  simpa using List.find?_some h

theorem mem_of_getOrder {i : OrderId} {o : RestingOrder} (h : b.getOrder i = some o) :
    o ∈ b.orders := List.mem_of_find?_eq_some h

theorem mem_makers {side : Side} {limit : Option ℕ} {o : RestingOrder} :
    o ∈ b.makers side limit ↔
      o ∈ b.orders ∧ o.side = side.opposite ∧ Crosses side limit o.price := by
  simp [makers, List.mem_insertionSort]

theorem makers_nodup (side : Side) (limit : Option ℕ) :
    ((b.makers side limit).map RestingOrder.id).Nodup := by
  unfold makers
  rw [((List.perm_insertionSort (Better side) _).map RestingOrder.id).nodup_iff]
  exact b.nodup.sublist (List.Sublist.map _ List.filter_sublist)

/-- Replace every order by what `f` leaves of it. -/
def thin (f : RestingOrder → Option RestingOrder) (hid : ∀ o o', f o = some o' → o'.id = o.id)
    (hpos : ∀ o o', 0 < o.visibleQuantity → f o = some o' → 0 < o'.visibleQuantity) :
    ReferenceBook where
  orders := b.orders.filterMap f
  nodup := by
    have hsub : ∀ l : List RestingOrder,
        List.Sublist ((l.filterMap f).map RestingOrder.id) (l.map RestingOrder.id) := by
      intro l
      induction l with
      | nil => simp
      | cons o l ih =>
        cases hf : f o with
        | none => simpa [List.filterMap_cons, hf] using ih.cons o.id
        | some o' => simpa [List.filterMap_cons, hf, hid o o' hf] using ih.cons_cons o.id
    exact b.nodup.sublist (hsub b.orders)
  positive o ho := by
    obtain ⟨o', ho', hf⟩ := List.mem_filterMap.mp ho
    exact hpos o' o (b.positive o' ho') hf

theorem getOrder_thin {f : RestingOrder → Option RestingOrder}
    {hid : ∀ o o', f o = some o' → o'.id = o.id}
    {hpos : ∀ o o', 0 < o.visibleQuantity → f o = some o' → 0 < o'.visibleQuantity}
    (j : OrderId) : (b.thin f hid hpos).getOrder j = (b.getOrder j).bind f := by
  have hn := b.nodup
  change (b.orders.filterMap f).find? (fun o => o.id = j) =
    (b.orders.find? fun o => o.id = j).bind f
  revert hn
  generalize b.orders = l
  intro hn
  induction l with
  | nil => rfl
  | cons o l ih =>
    rw [List.map_cons, List.nodup_cons] at hn
    have habs : o.id = j → l.find? (fun x => x.id = j) = none := by
      intro he
      simp only [List.find?_eq_none, decide_eq_true_eq]
      intro x hx hxj
      exact hn.1 (List.mem_map.mpr ⟨x, hx, hxj.trans he.symm⟩)
    have ih := ih hn.2
    by_cases hj : o.id = j
    · cases hf : f o with
      | none =>
        rw [habs hj] at ih
        simp [hf, hj, ih]
      | some o' => simp [hf, hj, hid o o' hf]
    · cases hf : f o with
      | none => simpa [List.filterMap_cons, hf, hj] using ih
      | some o' => simpa [List.filterMap_cons, hf, hj, hid o o' hf] using ih

/-- Take what executed off the makers. -/
def settle (ts : List Trade) : ReferenceBook :=
  b.thin (fun o => o.reduce (makerFilled ts o.id))
    (fun o o' h => by
      unfold RestingOrder.reduce at h
      split_ifs at h
      exact Option.some.inj h ▸ rfl)
    (fun o o' _ h => by
      unfold RestingOrder.reduce at h
      split_ifs at h with hq
      rw [← Option.some.inj h]
      exact Nat.sub_pos_of_lt (Nat.not_le.mp hq))

def discard (id : OrderId) : ReferenceBook :=
  b.thin (fun o => if o.id = id then none else some o)
    (fun o o' h => by
      split_ifs at h
      exact Option.some.inj h ▸ rfl)
    (fun o o' ho h => by
      split_ifs at h
      exact Option.some.inj h ▸ ho)

def lapse (now : ℕ) : ReferenceBook :=
  b.thin
    (fun o => match o.timeInForce with
      | .gtd t => if t ≤ now then none else some o
      | _ => some o)
    (fun o o' h => by
      split at h
      · split_ifs at h
        exact Option.some.inj h ▸ rfl
      · exact Option.some.inj h ▸ rfl)
    (fun o o' ho h => by
      split at h
      · split_ifs at h
        exact Option.some.inj h ▸ ho
      · exact Option.some.inj h ▸ ho)

/-- Add an order behind all others, if its id is free and it is not empty. -/
def enqueue (o : RestingOrder) : ReferenceBook :=
  if h : b.getOrder o.id = none ∧ 0 < o.visibleQuantity then
    { orders := b.orders ++ [o]
      nodup := by
        rw [List.map_append, List.nodup_append]
        refine ⟨b.nodup, by simp, ?_⟩
        intro i hi j hj he
        obtain ⟨o', ho', rfl⟩ := List.mem_map.mp hi
        have hj : j = o.id := by simpa using hj
        have hnone := h.1
        rw [← hj, ← he, (b.mem_iff_getOrder o').mp ho'] at hnone
        cases hnone
      positive := by
        intro o' ho'
        rcases List.mem_append.mp ho' with ho' | ho'
        · exact b.positive o' ho'
        · rw [List.mem_singleton.mp ho']
          exact h.2 }
  else b

theorem getOrder_enqueue {o : RestingOrder} (h : b.getOrder o.id = none)
    (hp : 0 < o.visibleQuantity) (j : OrderId) :
    (b.enqueue o).getOrder j = if j = o.id then some o else b.getOrder j := by
  unfold enqueue
  rw [dif_pos ⟨h, hp⟩]
  unfold getOrder at h ⊢
  rw [List.find?_append]
  split_ifs with hj
  · subst hj
    simp [h]
  · have hne : o.id ≠ j := fun he => hj he.symm
    simp [hne]

def addLimitOrderWithTif (now : ℕ) (k : TradeId) (id : OrderId) (side : Side) (price q : ℕ)
    (tif : TimeInForce) : Except String MatchResult × ReferenceBook :=
  let r := b.matchTaker now k id side (some price) q
  if (b.getOrder id).isSome then (.error "duplicate order id", b)
  else if tif = .fok ∧ 0 < r.remainingQuantity then (.error "insufficient liquidity", b)
  else match rested id side price tif r with
    | some o => (.ok r, (b.settle r.trades).enqueue o)
    | none => (.ok r, b.settle r.trades)

def submitMarketOrder (now : ℕ) (k : TradeId) (id : OrderId) (q : ℕ) (side : Side) :
    Except String MatchResult × ReferenceBook :=
  let r := b.matchTaker now k id side none q
  if r.trades = [] then (.error "insufficient liquidity", b) else (.ok r, b.settle r.trades)

def cancelOrder (id : OrderId) : Except String Bool × ReferenceBook :=
  if (b.getOrder id).isSome then (.ok true, b.discard id) else (.ok false, b)

def createSnapshot : OrderBookSnapshot where
  bids := [b.orders.filter fun o => o.side = .buy]
  asks := [b.orders.filter fun o => o.side = .sell]

/-- A snapshot that repeats an id or holds an empty order is refused. -/
def restoreFromSnapshot (s : OrderBookSnapshot) : Except String Unit × ReferenceBook :=
  if h : (s.orders.map RestingOrder.id).Nodup ∧ ∀ o ∈ s.orders, 0 < o.visibleQuantity then
    (.ok (), ⟨s.orders, h.1, h.2⟩)
  else (.error "invalid snapshot", b)

/-- An order as a list of numbers. -/
def tokens (o : RestingOrder) : List ℕ :=
  [o.id, (match o.side with | .buy => 0 | .sell => 1), o.price, o.visibleQuantity] ++
    match o.timeInForce with
    | .gtc => [0, 0]
    | .ioc => [1, 0]
    | .fok => [2, 0]
    | .gtd t => [3, t]

def readOrders : List ℕ → List RestingOrder
  | id :: side :: price :: q :: tif :: t :: rest =>
    let tif := match tif with
      | 0 => TimeInForce.gtc
      | 1 => .ioc
      | 2 => .fok
      | _ => .gtd t
    ⟨id, if side = 0 then .buy else .sell, price, q, tif⟩ :: readOrders rest
  | _ => []

def writeTokens (ts : List ℕ) : String :=
  String.ofList (ts.flatMap fun n => List.replicate n '1' ++ [','])

def readTokens : List Char → ℕ → List ℕ
  | [], _ => []
  | c :: cs, n => if c = ',' then n :: readTokens cs 0 else readTokens cs (n + 1)

def parseSnapshot (data : String) : Except String OrderBookSnapshot :=
  let os := readOrders (readTokens data.toList 0)
  .ok ⟨[os.filter fun o => o.side = .buy], [os.filter fun o => o.side = .sell]⟩

/-- Only what reads back is written. -/
def serializeSnapshot (s : OrderBookSnapshot) : Except String String :=
  let data := writeTokens (s.orders.flatMap tokens)
  match parseSnapshot data with
  | .ok s' => if s' = s then .ok data else .error "unreadable snapshot"
  | .error e => .error e

def getDate (now : ℕ) : ExpirationDate → Option DateTime
  | .days n => some ⟨now / 86400000 + n, now / 1000 % 86400⟩
  | .dateTime t => some t

def displayExpiration (now : ℕ) (e : ExpirationDate) : String :=
  match getDate now e with
  | some t =>
    let (year, month, day) := Calendar.civilOfDay t.day
    toString year ++ "-" ++ Calendar.padLeft 2 month ++ "-" ++ Calendar.padLeft 2 day ++ " " ++
      Calendar.padLeft 2 (t.second / 3600) ++ ":" ++ Calendar.padLeft 2 (t.second / 60 % 60) ++
      ":" ++ Calendar.padLeft 2 (t.second % 60) ++ " UTC"
  | none => ""

def bookSymbol (now : ℕ) (a : OptionAddr) : String :=
  a.underlying ++ "-" ++ ((getDate now a.expiration).map Calendar.formatYmd).getD "" ++ "-" ++
    toString a.strike ++ "-" ++ (match a.style with | .call => "C" | .put => "P")

/-- An RFC 3339 instant in UTC with whole seconds, as epoch milliseconds. -/
def parseInstant (s : String) : Except String ℤ :=
  let digits := s.toList.filter Char.isDigit
  let field (start width : ℕ) : ℕ := Nat.ofDigitChars 10 ((digits.drop start).take width) 0
  let (hour, minute, second) := (field 8 2, field 10 2, field 12 2)
  if s.toList.map (fun c => if c.isDigit then '0' else c) ≠ "0000-00-00T00:00:00Z".toList then
    .error "input contains invalid characters"
  else
    match Calendar.fromYmdOpt (field 0 4) (field 4 2) (field 6 2) with
    | some day =>
      if hour < 24 ∧ minute < 60 ∧ second < 60 then
        .ok (day * 86400000 + ((hour * 60 + minute) * 60 + second) * 1000)
      else .error "input is out of range"
    | none => .error "input is out of range"

/-- The decimal number written in `s`, when `s` is its canonical spelling. -/
def parseNumber (s : String) : Option ℕ :=
  let n := Nat.ofDigitChars 10 s.toList 0
  if n.repr = s then some n else none

theorem parseNumber_repr (n : ℕ) : parseNumber n.repr = some n := by
  simp [parseNumber]

instance : Upstream ReferenceBook where
  empty := ⟨[], by simp, by simp⟩
  getOrder := getOrder
  orders := orders
  addLimitOrderWithTif := addLimitOrderWithTif
  submitMarketOrder := submitMarketOrder
  cancelOrder := cancelOrder
  lapse now b := b.lapse now
  createSnapshot := createSnapshot
  restoreFromSnapshot := restoreFromSnapshot
  serializeSnapshot := serializeSnapshot
  parseSnapshot := parseSnapshot
  enlist l e := l ++ [e]
  getDate := getDate
  displayExpiration := displayExpiration
  bookSymbol := bookSymbol
  underlyingError underlying := "underlying not found: " ++ underlying
  strikeError strike := "strike not found: " ++ toString strike
  displayTif
    | .gtc => "GTC"
    | .ioc => "IOC"
    | .fok => "FOK"
    | .gtd ms => "GTD-" ++ toString ms
  showOrderId := Nat.repr
  parseOrderId := parseNumber
  showTradeId := Nat.repr
  parseRfc3339 := parseInstant

theorem matched (now : ℕ) (k : TradeId) (id : OrderId) (side : Side) (limit : Option ℕ)
    (q : ℕ) : Matched b k id side limit q (b.matchTaker now k id side limit q) where
  conserves := sweep_conserves now id _ q k
  complete := rfl
  tradeIds := sweep_tradeIds now id _ q k
  takers t ht := (sweep_mem ht).1
  positive t ht := by
    obtain ⟨-, o, ho, -, -, hpos⟩ := sweep_mem ht
    exact hpos (b.positive o (b.mem_makers.mp ho).1)
  makers t ht := by
    obtain ⟨-, o, ho, hid, hp, -⟩ := sweep_mem ht
    obtain ⟨hm, hs, hc⟩ := b.mem_makers.mp ho
    exact ⟨o, hid ▸ (b.mem_iff_getOrder o).mp hm, hs, hp, hc⟩
  bounded i o ho := by
    have hid := b.getOrder_id ho
    by_cases hm : o ∈ b.makers side limit
    · rw [← hid]
      exact (sweep_filled (b.makers_nodup side limit) hm).1
    · have habs : makerFilled (b.matchTaker now k id side limit q).trades i = 0 := by
        apply sweep_absent
        intro o' ho' he
        have h' := (b.mem_iff_getOrder o').mp (b.mem_makers.mp ho').1
        rw [he] at h'
        exact hm (Option.some.inj (ho.symm.trans h') ▸ ho')
      rw [habs]
      exact Nat.zero_le _
  exhausts hr i o ho hs hc := by
    have hid := b.getOrder_id ho
    have hm : o ∈ b.makers side limit := b.mem_makers.mpr ⟨b.mem_of_getOrder ho, hs, hc⟩
    rw [← hid]
    exact (sweep_filled (b.makers_nodup side limit) hm).2 hr

theorem getOrder_settle (ts : List Trade) (j : OrderId) :
    (b.settle ts).getOrder j = (b.getOrder j).bind (·.reduce (makerFilled ts j)) := by
  unfold settle
  rw [getOrder_thin]
  cases h : b.getOrder j with
  | none => rfl
  | some o => simp [b.getOrder_id h]

theorem getOrder_discard (id j : OrderId) :
    (b.discard id).getOrder j = if j = id then none else b.getOrder j := by
  unfold discard
  rw [getOrder_thin]
  cases h : b.getOrder j with
  | none => simp
  | some o => by_cases hj : j = id <;> simp [b.getOrder_id h, hj]

theorem addLimit_ok {now : ℕ} {k : TradeId} {id : OrderId} {side : Side} {p q : ℕ}
    {tif : TimeInForce} {r : MatchResult} {b' : ReferenceBook}
    (h : b.addLimitOrderWithTif now k id side p q tif = (.ok r, b')) :
    r = b.matchTaker now k id side (some p) q ∧ b.getOrder id = none ∧
      (tif = .fok → r.remainingQuantity = 0) ∧
      ∀ j, b'.getOrder j = if j = id then rested id side p tif r else
        (b.getOrder j).bind (·.reduce (makerFilled r.trades j)) := by
  unfold addLimitOrderWithTif at h
  dsimp only at h
  by_cases h1 : (b.getOrder id).isSome
  · simp [h1] at h
  have hid : b.getOrder id = none := by simpa using h1
  by_cases h2 : tif = .fok ∧ 0 < (b.matchTaker now k id side (some p) q).remainingQuantity
  · simp [h1, h2.1, h2.2] at h
  rw [if_neg h1, if_neg h2] at h
  have hset : (b.settle (b.matchTaker now k id side (some p) q).trades).getOrder id = none := by
    simp [getOrder_settle, hid]
  cases hr : rested id side p tif (b.matchTaker now k id side (some p) q) with
  | none =>
    simp only [hr, Prod.mk.injEq, Except.ok.injEq] at h
    obtain ⟨rfl, rfl⟩ := h
    refine ⟨rfl, hid, fun hf => ?_, fun j => ?_⟩
    · simpa [hf] using h2
    · rw [getOrder_settle, hr]
      split_ifs with hj
      · simp [hj, hid]
      · rfl
  | some o =>
    simp only [hr, Prod.mk.injEq, Except.ok.injEq] at h
    obtain ⟨rfl, rfl⟩ := h
    have ho : o.id = id ∧ 0 < o.visibleQuantity := by
      unfold rested at hr
      split_ifs at hr with hc
      rw [← Option.some.inj hr]
      exact ⟨rfl, hc.2⟩
    refine ⟨rfl, hid, fun hf => ?_, fun j => ?_⟩
    · simpa [hf] using h2
    · rw [getOrder_enqueue _ (ho.1 ▸ hset) ho.2, getOrder_settle, hr, ho.1]

theorem market_ok {now : ℕ} {k : TradeId} {id : OrderId} {side : Side} {q : ℕ}
    {r : MatchResult} {b' : ReferenceBook}
    (h : b.submitMarketOrder now k id q side = (.ok r, b')) :
    r = b.matchTaker now k id side none q ∧
      ∀ j, b'.getOrder j = (b.getOrder j).bind (·.reduce (makerFilled r.trades j)) := by
  unfold submitMarketOrder at h
  dsimp only at h
  by_cases h1 : (b.matchTaker now k id side none q).trades = []
  · simp [h1] at h
  · rw [if_neg h1] at h
    obtain ⟨hr, rfl⟩ := Prod.mk.inj h
    obtain rfl := Except.ok.inj hr
    exact ⟨rfl, fun j => getOrder_settle b _ j⟩

theorem lapse_getOrder (now : ℕ) (j : OrderId) :
    (b.lapse now).getOrder j = b.getOrder j ∨ (b.lapse now).getOrder j = none ∧
      ∃ o t, b.getOrder j = some o ∧ o.timeInForce = .gtd t ∧ t ≤ now := by
  unfold lapse
  rw [getOrder_thin]
  cases h : b.getOrder j with
  | none => exact .inl rfl
  | some o =>
    cases ht : o.timeInForce with
    | gtd t =>
      by_cases hn : t ≤ now
      · exact .inr ⟨by simp [ht, hn], o, t, rfl, ht, hn⟩
      · exact .inl (by simp [ht, hn])
    | gtc => exact .inl (by simp [ht])
    | ioc => exact .inl (by simp [ht])
    | fok => exact .inl (by simp [ht])

theorem mem_createSnapshot (o : RestingOrder) :
    o ∈ b.createSnapshot.orders ↔ o ∈ b.orders := by
  cases h : o.side <;> simp [createSnapshot, OrderBookSnapshot.orders, h]

theorem createSnapshot_nodup : (b.createSnapshot.orders.map RestingOrder.id).Nodup := by
  have hperm : b.createSnapshot.orders.Perm b.orders := by
    have h := List.filter_append_perm (fun o : RestingOrder => decide (o.side = .buy)) b.orders
    have hs : (fun o : RestingOrder => decide (o.side = .sell)) =
        fun o => !decide (o.side = .buy) := by
      funext o
      cases o.side <;> rfl
    simpa [createSnapshot, OrderBookSnapshot.orders, hs] using h
  exact ((hperm.map RestingOrder.id).nodup_iff).mpr b.nodup

instance : LawfulUpstream ReferenceBook where
  getOrder_empty _ := rfl
  getOrder_id b _ _ h := b.getOrder_id h
  getOrder_pos b _ o h := b.positive o (b.mem_of_getOrder h)
  orders_nodup b := List.Nodup.of_map _ b.nodup
  mem_orders b o := b.mem_iff_getOrder o
  add_ok b now k id side p q tif r b' h _ := by
    obtain ⟨rfl, -, hf, hg⟩ := b.addLimit_ok h
    exact ⟨b.matched now k id side (some p) q, hf, hg⟩
  add_error b now k id side p q tif e b' h := by
    change b.addLimitOrderWithTif now k id side p q tif = _ at h
    unfold addLimitOrderWithTif at h
    dsimp only at h
    split_ifs at h with h1 h2
    · exact fun j => (Prod.mk.inj h).2 ▸ rfl
    · exact fun j => (Prod.mk.inj h).2 ▸ rfl
    · split at h <;> simp at h
  market_ok b now k id q side r b' h _ := by
    obtain ⟨rfl, hg⟩ := b.market_ok h
    exact ⟨b.matched now k id side none q, hg⟩
  market_error b now k id q side e b' h := by
    change b.submitMarketOrder now k id q side = _ at h
    unfold submitMarketOrder at h
    dsimp only at h
    split_ifs at h with h1
    · exact fun j => (Prod.mk.inj h).2 ▸ rfl
    · simp at h
  cancel_true b id b' h := by
    change b.cancelOrder id = _ at h
    unfold cancelOrder at h
    split_ifs at h with h1
    · obtain ⟨-, rfl⟩ := Prod.mk.inj h
      exact ⟨h1, getOrder_discard b id⟩
    · simp at h
  cancel_false b id b' h := by
    change b.cancelOrder id = _ at h
    unfold cancelOrder at h
    split_ifs at h with h1
    · simp at h
    · obtain ⟨-, rfl⟩ := Prod.mk.inj h
      exact ⟨Option.not_isSome_iff_eq_none.mp h1, fun _ => rfl⟩
  cancel_error b id e b' h := by
    change b.cancelOrder id = _ at h
    unfold cancelOrder at h
    split_ifs at h <;> simp at h
  lapse_getOrder now b j := b.lapse_getOrder now j
  snapshot_nodup b := b.createSnapshot_nodup
  mem_snapshot b o := (b.mem_createSnapshot o).trans (b.mem_iff_getOrder o)
  restore_ok b s b' h := by
    change b.restoreFromSnapshot s = _ at h
    unfold restoreFromSnapshot at h
    split_ifs at h
    · exact fun j => (Prod.mk.inj h).2 ▸ rfl
    · simp at h
  restore_error b s e b' h := by
    change b.restoreFromSnapshot s = _ at h
    unfold restoreFromSnapshot at h
    split_ifs at h
    · simp at h
    · exact fun j => (Prod.mk.inj h).2 ▸ rfl
  parse_serialize s data h := by
    change serializeSnapshot s = _ at h
    unfold serializeSnapshot at h
    dsimp only at h
    split at h
    · rename_i s' hs
      split_ifs at h with he
      obtain rfl := Except.ok.inj h
      subst he
      exact hs
    · simp at h
  enlist_perm l e := List.perm_append_singleton e l
  parse_show := parseNumber_repr
  showTradeId_injective i j h := by
    have hp : parseNumber i.repr = parseNumber j.repr := congrArg parseNumber h
    rw [parseNumber_repr, parseNumber_repr] at hp
    exact Option.some.inj hp

theorem cancelRemoves : CancelRemoves ReferenceBook := by
  intro b i h
  change (b.cancelOrder i).1 = _
  have h' : (b.getOrder i).isSome := h
  simp [cancelOrder, h']

end ReferenceBook

example : (ReferenceBook.addLimitOrderWithTif ⟨[⟨1, .sell, 10, 3, .gtc⟩, ⟨2, .sell, 9, 4, .gtc⟩],
    by decide, by decide⟩ 0 7 5 .buy 10 6 .gtc).2.orders = [⟨1, .sell, 10, 1, .gtc⟩] := by
  decide

end OptionChainBackend
