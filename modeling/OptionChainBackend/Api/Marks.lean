import OptionChainBackend.Api.FillKeys

/-!
The mark of a position: `get_current_price_for_symbol` takes the symbol apart at its dashes and
looks at the book the pieces lead to.
-/
namespace OptionChainBackend
open Foundation Foundation.Decimal Upstream MarketMaker Exchange

section Symbols

def uppercase (s : String) : String := String.ofList (s.toList.map Char.toUpper)

/-- `str::parse::<u64>`. -/
def parseU64 (cs : List Char) : Option ℕ :=
  let digits := match cs with
    | '+' :: cs => cs
    | cs => cs
  if digits ≠ [] ∧ digits.all Char.isDigit ∧ digitsValue digits < 2 ^ 64 then
    some (digitsValue digits)
  else none

def symbolStyle (style : String) : Option OptionStyle :=
  if uppercase style = "C" ∨ uppercase style = "CALL" then some .call
  else if uppercase style = "P" ∨ uppercase style = "PUT" then some .put
  else none

theorem symbolStyle_styleChar (style : OptionStyle) :
    symbolStyle (Desk.styleChar style) = some style := by
  cases style <;> decide +kernel

theorem parseU64_toDigits {n : ℕ} (h : n < 2 ^ 64) : parseU64 (Nat.toDigits 10 n) = some n := by
  have hdigits : IsDigits (Nat.toDigits 10 n) := fun c hc =>
    Nat.isDigit_of_mem_toDigits (by decide) (by decide) hc
  have hplain : (match Nat.toDigits 10 n with
      | '+' :: cs => cs
      | cs => cs) = Nat.toDigits 10 n := by
    split
    · rename_i cs hcs
      exact absurd (hdigits '+' (hcs ▸ List.mem_cons_self)) (by decide)
    · rfl
  have hvalue : digitsValue (Nat.toDigits 10 n) = n := by simp [digitsValue]
  unfold parseU64
  rw [hplain]
  dsimp only
  rw [if_pos ⟨Nat.toDigits_ne_nil, List.all_eq_true.mpr hdigits, hvalue.trans_lt h⟩, hvalue]

/-- A text with a dash has more than one piece. -/
theorem one_lt_length_splitOn {cs : List Char} (h : '-' ∈ cs) : 1 < (cs.splitOn '-').length := by
  obtain ⟨xs, ys, rfl⟩ := List.append_of_mem h
  have hx := List.length_pos_of_ne_nil (List.splitOn_ne_nil '-' xs)
  have hy := List.length_pos_of_ne_nil (List.splitOn_ne_nil '-' ys)
  rw [List.splitOn_append_cons_self, List.length_append]
  omega

end Symbols

namespace Exchange
variable {B : Type} [Upstream B] {x : Exchange B} {a : OptionAddr} {symbol : String}

/-- The book a symbol is priced on. -/
def symbolBook (x : Exchange B) (symbol : String) : Option OptionAddr :=
  match symbolParts symbol with
  | [underlying, expStr, strikeStr, styleStr] =>
    match parseU64 strikeStr, symbolStyle (String.ofList styleStr),
        parseExpiration (String.ofList expStr) with
    | some strike, some style, .ok e =>
      let a : OptionAddr := ⟨String.ofList underlying, e, strike, style⟩
      if x.hasBook a then some a else none
    | _, _, _ => none
  | _ => none

def sidePrices (x : Exchange B) (a : OptionAddr) (side : Side) : List ℕ :=
  ((Upstream.orders (x.books a)).filter fun o => o.side = side).map RestingOrder.price

/-- The mid price of `best_quote`, or the one side there is. The sum is taken in `u128`. -/
def markPrice (x : Exchange B) (a : OptionAddr) : Option ℕ :=
  match (x.sidePrices a .buy).max?, (x.sidePrices a .sell).min? with
  | some bid, some ask => some ((bid + ask) % 2 ^ 128 / 2)
  | some bid, none => some bid
  | none, some ask => some ask
  | none, none => none

def getCurrentPriceForSymbol (x : Exchange B) (symbol : String) : Option ℕ :=
  (x.symbolBook symbol).bind x.markPrice

/-- The symbol is priced on `a`, whenever something rests there, and on no other book. -/
structure MarkedAt (x : Exchange B) (symbol : String) (a : OptionAddr) : Prop where
  book : x.symbolBook symbol = some a
  priced : ∀ i, (x.getOrder a i).isSome → (x.getCurrentPriceForSymbol symbol).isSome
  price : x.getCurrentPriceForSymbol symbol = x.markPrice a

theorem markPrice_isSome [LawfulUpstream B] {i : OrderId} (h : (x.getOrder a i).isSome) :
    (x.markPrice a).isSome := by
  obtain ⟨o, ho⟩ := Option.isSome_iff_exists.mp h
  have hmem : o.price ∈ x.sidePrices a o.side := by
    refine List.mem_map.mpr ⟨o, List.mem_filter.mpr ⟨?_, by simp⟩, rfl⟩
    rw [LawfulUpstream.mem_orders, LawfulUpstream.getOrder_id _ _ _ ho]
    exact ho
  unfold markPrice
  cases hs : o.side with
  | buy =>
    have hne : (x.sidePrices a .buy).max? ≠ none := by
      rw [Ne, List.max?_eq_none_iff]
      exact List.ne_nil_of_mem (hs ▸ hmem)
    obtain ⟨bid, hbid⟩ := Option.ne_none_iff_exists'.mp hne
    rw [hbid]
    cases (x.sidePrices a .sell).min? <;> rfl
  | sell =>
    have hne : (x.sidePrices a .sell).min? ≠ none := by
      rw [Ne, List.min?_eq_none_iff]
      exact List.ne_nil_of_mem (hs ▸ hmem)
    obtain ⟨ask, hask⟩ := Option.ne_none_iff_exists'.mp hne
    rw [hask]
    cases (x.sidePrices a .buy).max? <;> rfl

theorem markedAt_iff [LawfulUpstream B] : x.MarkedAt symbol a ↔ x.symbolBook symbol = some a := by
  constructor
  · exact fun h => h.book
  · intro h
    have hprice : x.getCurrentPriceForSymbol symbol = x.markPrice a := by
      unfold getCurrentPriceForSymbol
      rw [h, Option.bind_some]
    exact ⟨h, fun i hi => hprice ▸ markPrice_isSome hi, hprice⟩

omit [Upstream B] in
/-- What the pieces of a key lead to. -/
theorem symbolBook_symbolOf {underlying expStr : String} (hdash : '-' ∉ expStr.toList)
    (hstrike : a.strike < 2 ^ 64) (hu : a.underlying = underlying) (hb : x.hasBook a = true) :
    x.symbolBook (symbolOf underlying expStr a.strike a.style) = some a ↔
      '-' ∉ underlying.toList ∧ parseExpiration expStr = .ok a.expiration := by
  have hparts := @symbolParts_symbolOf underlying expStr a.strike a.style
  rw [splitOn_of_no_dash hdash] at hparts
  unfold symbolBook
  rw [hparts]
  by_cases hname : '-' ∈ underlying.toList
  · have hlen := one_lt_length_splitOn hname
    refine iff_of_false ?_ fun h => h.1 hname
    split
    · rename_i heq
      have := congrArg List.length heq
      simp at this
      omega
    · nofun
  · rw [splitOn_of_no_dash hname]
    dsimp only [List.cons_append, List.nil_append]
    rw [parseU64_toDigits hstrike, String.ofList_toList, String.ofList_toList,
      String.ofList_toList, symbolStyle_styleChar]
    cases hp : parseExpiration expStr with
    | error e => simp [hname]
    | ok e =>
      dsimp only
      constructor
      · intro h
        split_ifs at h
        have hexp : e = a.expiration := congrArg OptionAddr.expiration (Option.some.inj h)
        exact ⟨hname, hexp ▸ rfl⟩
      · rintro ⟨-, he⟩
        obtain rfl := Except.ok.inj he
        rw [← hu, if_pos hb]

end Exchange

namespace AppState
variable {B F : Type} [Upstream B] [LawfulUpstream B] [F64 F] {s : AppState B F}
  {sub : Submission} {e : Execution}

/-- In every run, and however the books change later, a fill is marked at its own book exactly
when its underlying has no dash and its segment parses to the expiration of that book. -/
theorem marked_at_own_book_iff (hd : Dated B) {ok : AppState B F → Request F → Prop}
    (h : Reaches Start step ok s) (he : Executed s sub e) (hp : e.trade.price < 2 ^ 64)
    (hk : e.addr.strike < 2 ^ 64) : ∃ key, Filed s sub e key ∧
      ∀ x : Exchange B, x.hasBook e.addr = true → (x.MarkedAt key e.addr ↔
        '-' ∉ sub.underlying.toList ∧ parseExpiration sub.segment = .ok e.addr.expiration) := by
  obtain ⟨hg, hl⟩ := listed_partsKeep.reaches (fun s hs => hs.listed) h
  have hkeyed := he.keyed hg hp
  refine ⟨_, hkeyed.filed, fun x hb => ?_⟩
  rw [markedAt_iff]
  exact symbolBook_symbolOf (hkeyed.no_dash hd hl) hk hkeyed.underlying hb

section Reference

/-- An ask of five on an underlying whose name has a dash. -/
def dashedOrder : List (Request ℚ) :=
  [.addOrder ⟨"A-B", "30", 10000, "call"⟩ ⟨.sell, 100, 5, none, none⟩]

def dashedCall : OptionAddr := ⟨"A-B", .days 30, 10000, .call⟩

def dashedBuy : Submission := .limit ⟨"A-B", "30", 10000, "call"⟩ ⟨.buy, 100, 1, none, none⟩

theorem dashedBuy_executed : Executed (dashedOrder.foldl step reference) dashedBuy
    ⟨dashedCall, .buy, 0, 1, 0, 100, 1, 0⟩ :=
  ⟨[⟨dashedCall, .buy, 0, 1, 0, 100, 1, 0⟩], by decide +kernel, List.mem_singleton.mpr rfl⟩

theorem position_unpriced : ¬ ∀ s : AppState ReferenceBook ℚ,
    Reaches Start step (fun _ _ => True) s → ∀ sub e key, Executed s sub e → Filed s sub e key →
      ∀ i, ((sub.apply s).market.getOrder e.addr i).isSome →
        ((sub.apply s).market.getCurrentPriceForSymbol key).isSome := by
  intro h
  have hrun : Reaches Start step (fun _ _ => True) (dashedOrder.foldl step reference) :=
    (Reaches.start reference_start).run ⟨trivial, trivial⟩
  have hfiled := (dashedBuy_executed.keyed (reaches_grounded hrun) (by decide)).filed
  have hsome := h _ hrun _ _ _ dashedBuy_executed hfiled 0 (by decide +kernel)
  exact absurd hsome (by decide +kernel)

theorem marked_at_own_book_days : ∃ key, Filed (relativeOrder.foldl step reference) (buyOne "30")
    ⟨btcCall, .buy, 0, 1, 0, 100, 1, 0⟩ key ∧
      (oneBought.foldl step reference).market.MarkedAt key btcCall := by
  have hrun : Reaches Start step (fun _ _ => True) (relativeOrder.foldl step reference) :=
    (Reaches.start reference_start).run ⟨trivial, trivial⟩
  obtain ⟨key, hf, hm⟩ := marked_at_own_book_iff ReferenceBook.dated hrun buyOne_executed
    (by decide) (by decide)
  have hparse : parseExpiration "30" = .ok (.days 30) := by decide +kernel
  exact ⟨key, hf, (hm _ (by decide +kernel)).mpr ⟨by decide, hparse⟩⟩

end Reference
end AppState
end OptionChainBackend
