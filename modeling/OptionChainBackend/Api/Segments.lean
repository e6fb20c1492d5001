import OptionChainBackend.Api.Addressed

/-!
Symbols and their segments. In every run the listed expirations come from accepted segments, so
that no segment that leads to a book holds a dash, and a symbol tells its parts.
-/
namespace OptionChainBackend
open Foundation Foundation.Decimal Upstream MarketMaker Exchange

section Symbols
variable {underlying underlying' expStr expStr' : String} {strike strike' : ℕ}
  {style style' : OptionStyle}

/-- The pieces of a symbol between its dashes. -/
def symbolParts (symbol : String) : List (List Char) := symbol.toList.splitOn '-'

theorem not_dash_of_digits {cs : List Char} (h : IsDigits cs) : '-' ∉ cs :=
  fun hm => absurd (h '-' hm) (by decide)

theorem splitOn_of_no_dash {cs : List Char} (h : '-' ∉ cs) : cs.splitOn '-' = [cs] :=
  List.splitOn_eq_singleton h

theorem symbolParts_symbolOf : symbolParts (symbolOf underlying expStr strike style) =
    underlying.toList.splitOn '-' ++ (expStr.toList.splitOn '-' ++
      [Nat.toDigits 10 strike, (Desk.styleChar style).toList]) := by
  have hdigits : '-' ∉ Nat.toDigits 10 strike :=
    not_dash_of_digits fun c hc => Nat.isDigit_of_mem_toDigits (by decide) (by decide) hc
  have hstyle : '-' ∉ (Desk.styleChar style).toList := by cases style <;> decide
  have hlist : (symbolOf underlying expStr strike style).toList = underlying.toList ++ '-' ::
      (expStr.toList ++ '-' :: (Nat.toDigits 10 strike ++ '-' ::
        (Desk.styleChar style).toList)) := by
    simp [symbolOf, Nat.toString_eq_repr]
  rw [symbolParts, hlist, List.splitOn_append_cons_self, List.splitOn_append_cons_self,
    List.splitOn_append_cons_self, splitOn_of_no_dash hdigits, splitOn_of_no_dash hstyle]
  rfl

/-- A symbol tells its parts, when the expiration segment has no dash; the underlying may. -/
theorem symbolOf_inj (h : '-' ∉ expStr.toList) (h' : '-' ∉ expStr'.toList) :
    symbolOf underlying expStr strike style = symbolOf underlying' expStr' strike' style' ↔
      underlying = underlying' ∧ expStr = expStr' ∧ strike = strike' ∧ style = style' := by
  constructor
  · intro heq
    have hparts := congrArg symbolParts heq
    rw [symbolParts_symbolOf, symbolParts_symbolOf, splitOn_of_no_dash h,
      splitOn_of_no_dash h'] at hparts
    obtain ⟨hu, hrest⟩ := List.append_inj' hparts rfl
    simp only [List.cons_append, List.nil_append, List.cons.injEq, and_true] at hrest
    obtain ⟨hexp, hstrike, hstyle⟩ := hrest
    refine ⟨String.toList_injective ?_, String.toList_injective hexp, ?_, ?_⟩
    · calc underlying.toList
          = ['-'].intercalate (underlying.toList.splitOn '-') := (List.intercalate_splitOn _).symm
        _ = ['-'].intercalate (underlying'.toList.splitOn '-') := by rw [hu]
        _ = underlying'.toList := List.intercalate_splitOn _
    · have := congrArg value hstrike
      simpa [value] using this
    · cases style <;> cases style' <;> first | rfl | exact absurd hstyle (by decide)
  · rintro ⟨rfl, rfl, rfl, rfl⟩
    rfl

/-- No accepted segment holds a dash. -/
theorem parseExpiration_no_dash {e : ExpirationDate} (h : parseExpiration expStr = .ok e) :
    '-' ∉ expStr.toList := by
  cases e with
  | days n =>
    obtain ⟨⟨cs, hd, hs⟩, -⟩ := parseExpiration_days h
    rcases hs with hs | hs <;> rw [hs]
    · exact not_dash_of_digits hd
    · intro hm
      rcases List.mem_cons.mp hm with hm | hm
      · exact absurd hm (by decide)
      · exact not_dash_of_digits hd hm
  | dateTime t => exact not_dash_of_digits (parseExpiration_dateTime h).1

end Symbols

namespace AppState
variable {B F : Type} {s : AppState B F}

/-- Every listed expiration is one of some segment. -/
def Listed (s : AppState B F) : Prop := ∀ u, ∀ e ∈ s.market.expirations u, e.Written

namespace Listed

theorem opens {s' : AppState B F} (h : s.Listed) (ho : Opens s.market s'.market) : s'.Listed := by
  intro u e he
  rcases ho u e he with he | he
  · exact h u e he
  · exact he

end Listed

variable [Upstream B]

section Checks
variable {a : OptionAddr}

theorem checkAddOrder_ok {p : OptionPath} {body : AddOrderRequest} {tif : TimeInForce}
    (h : s.checkAddOrder p body = .ok (a, tif)) : parseExpiration p.expStr = .ok a.expiration ∧
      a.underlying = p.underlying ∧ a.strike = p.strike ∧ parseOptionStyle p.style = .ok a.style ∧
      requestedTif B body s.market.now = .ok tif := by
  unfold checkAddOrder at h
  simp only [bind, Except.bind, pure, Except.pure] at h
  split at h
  · cases h
  · split at h
    · cases h
    · split at h
      · cases h
      · cases h
        exact ⟨‹_›, rfl, rfl, ‹_›, ‹_›⟩

theorem checkMarketOrder_ok {p : OptionPath} {body : MarketOrderRequest}
    (h : checkMarketOrder p body = .ok a) : parseExpiration p.expStr = .ok a.expiration ∧
      a.underlying = p.underlying ∧ a.strike = p.strike ∧
      parseOptionStyle p.style = .ok a.style := by
  unfold checkMarketOrder at h
  simp only [bind, Except.bind, pure, Except.pure] at h
  split_ifs at h
  split at h
  · cases h
  · split at h
    · cases h
    · cases h
      exact ⟨‹_›, rfl, rfl, ‹_›⟩

end Checks

theorem acceptLimit_market (expStr : String) (a : OptionAddr) (body : AddOrderRequest)
    (id : OrderId) (r : MatchResult) (x : Exchange B) :
    (s.acceptLimit expStr a body id r x).market = x := (reportLimit_reported _ _ _ _ _ _).market

variable [LawfulUpstream B]

theorem submitLimit_opens (expStr : String) {a : OptionAddr} (h : a.expiration.Written)
    (tif : TimeInForce) (body : AddOrderRequest) :
    Opens s.market (s.submitLimit expStr a tif body).2.market := by
  have hopen := Opens.openBook s.market h
  unfold submitLimit
  dsimp only
  split
  · rename_i he
    exact hopen.trans (.of_eq (congrArg (·.2.toCatalog) he).symm)
  · rename_i r x he
    rw [acceptLimit_market]
    exact hopen.trans (.of_eq (congrArg (·.2.toCatalog) he).symm)

theorem submitMarket_opens (expStr : String) {a : OptionAddr} (h : a.expiration.Written)
    (body : MarketOrderRequest) : Opens s.market (s.submitMarket expStr a body).2.market := by
  have hopen := Opens.openBook s.market h
  unfold submitMarket
  dsimp only
  split
  · rename_i he
    exact hopen.trans (.of_eq (congrArg (·.2.toCatalog) he).symm)
  · rename_i r x he
    have hm : (s.acceptMarket expStr a body.side r x).market = x :=
      ((recordMatch_reported _ _ _ _).trans (publishMatch_reported _ _ _)).market
    rw [hm]
    exact hopen.trans (.of_eq (congrArg (·.2.toCatalog) he).symm)

theorem submitSingleOrder_opens (hg : s.Grounded) (item : BulkOrderItem) :
    Opens s.market (s.submitSingleOrder item).2.market := by
  have hitem : Opens s.market (s.market.placeItem item).2 :=
    (Opens.getOrCreate _ _).trans (.of_eq (placeItem_cases hg.fresh item).1)
  rcases submitSingleOrder_cases s item with ⟨e, -, he⟩ | ⟨a, r, -, he⟩
  · rw [he]
    exact hitem
  · rw [he]
    simpa only [acceptItem_market] using hitem

omit [LawfulUpstream B] in
theorem cancelAt_opens (a : OptionAddr) (id : OrderId) (key : String) :
    Opens s.market (s.cancelAt a id key).2.market := by
  unfold cancelAt
  split
  · rename_i he
    exact .of_eq (congrArg (·.2.toCatalog) he).symm
  · rename_i x he
    have hm := (publishCancelled_reported (s := (s.withMarket x).untrack key) a
      (s.market.getOrder a id)).market
    dsimp only
    rw [hm]
    exact .of_eq (congrArg (·.2.toCatalog) he).symm
  · rename_i he
    exact .of_eq (congrArg (·.2.toCatalog) he).symm

omit [LawfulUpstream B] in
theorem placeReplacement_opens (expStr key : String) (a : OptionAddr) (side : Side)
    (price q : ℕ) : Opens s.market (s.placeReplacement expStr key a side price q).2.market := by
  unfold placeReplacement
  dsimp only
  split <;>
    · rename_i he
      exact .of_eq (congrArg (·.2.toCatalog) he).symm

omit [LawfulUpstream B] in
theorem replaceOrder_opens (expStr key : String) (a : OptionAddr) (id : OrderId)
    (o : RestingOrder) (price q : ℕ) :
    Opens s.market (s.replaceOrder expStr key a id o price q).2.market := by
  unfold replaceOrder
  split
  · rename_i he
    exact .of_eq (congrArg (·.2.toCatalog) he).symm
  · rename_i he
    exact .of_eq (congrArg (·.2.toCatalog) he).symm
  · rename_i x he
    have hc : Opens s.market x := .of_eq (congrArg (·.2.toCatalog) he).symm
    exact hc.trans (placeReplacement_opens expStr key a o.side price q)

omit [LawfulUpstream B] in
theorem cancelTracked_opens (key : String) (o : OrderInfo) :
    Opens s.market (s.cancelTracked key o).2.market := by
  unfold cancelTracked
  split
  · exact .refl _
  · exact .refl _
  · split
    · exact .refl _
    · split <;>
        · rename_i he
          exact .of_eq (congrArg (·.2.toCatalog) he).symm

omit [LawfulUpstream B] in
theorem rollbackOrder_opens (item : BulkOrderItem) (o : AcceptedBulkOrder) :
    Opens s.market (s.rollbackOrder item o).2.market := by
  have hc : Opens s.market (s.cancelBulkItemOrder item o.orderId).2.market := by
    unfold cancelBulkItemOrder
    split
    · exact .refl _
    · exact .refl _
    · exact .refl _
    · split <;>
        · rename_i he
          exact .of_eq (congrArg (·.2.toCatalog) he).symm
  have hr : ∀ (s : AppState B F) cancel, (s.reconcile o cancel).market = s.market := by
    intro s cancel
    unfold reconcile
    dsimp only
    split_ifs
    · rfl
    · split <;> rfl
  change Opens s.market ((s.cancelBulkItemOrder item o.orderId).2.reconcile o _).market
  rw [hr]
  exact hc

theorem restoreSnapshot_opens (id : String) : Opens s.market (s.restoreSnapshot id).2.market := by
  rcases restoreSnapshot_cases (s := s) id with he | ⟨stored, -, he⟩
  · rw [he]
    exact .refl _
  · rw [he]
    exact .restoreInfos _ _

theorem listed_partsKeep : PartsKeep fun s : AppState B F => s.Listed where
  limit _ h hc := h.opens (submitLimit_opens _ ⟨_, (checkAddOrder_ok hc).1⟩ _ _)
  market _ h hc := h.opens (submitMarket_opens _ ⟨_, (checkMarketOrder_ok hc).1⟩ _)
  item item hg h := h.opens (submitSingleOrder_opens hg item)
  delete _ h _ := h.opens (cancelAt_opens _ _ _)
  replace _ _ _ _ h _ _ := h.opens (replaceOrder_opens _ _ _ _ _ _ _)
  cancel key o _ h := h.opens (cancelTracked_opens key o)
  rollback item o _ h := h.opens (rollbackOrder_opens item o)
  untrack _ _ h := h.opens (.refl _)
  desk _ _ h _ ho := h.opens ho
  save _ _ h := h.opens (.refl _)
  restore id _ h := h.opens (restoreSnapshot_opens id)

omit [LawfulUpstream B] in
theorem Start.listed [F64 F] (h : s.Start) : s.Listed := by
  obtain ⟨quoter, rfl⟩ := h
  intro u e he
  cases he

omit [Upstream B] [LawfulUpstream B] in
/-- No day from 1970 on is written with a dash. -/
theorem formatYmd_no_dash {day : ℤ} (h : 0 ≤ day) (second : ℕ) :
    '-' ∉ (Calendar.formatYmd ⟨day, second⟩).toList := by
  have hyear : 0 ≤ (Calendar.civilOfDay day).1 := by
    unfold Calendar.civilOfDay
    dsimp only
    split_ifs <;> omega
  have hpad : ∀ w n, '-' ∉ padded w n := fun w n => not_dash_of_digits padded_isDigits
  rw [Calendar.toList_formatYmd, Calendar.yearText, if_neg (not_lt.mpr hyear)]
  split_ifs <;> simp [hpad]

omit [LawfulUpstream B] in
/-- The segment of a lookup that succeeded holds no dash. -/
theorem find_no_dash (hd : Dated B) (h : s.Listed) {underlying expStr : String}
    {e : ExpirationDate} (hf : s.market.findExpirationByStr underlying expStr = some e) :
    '-' ∉ expStr.toList := by
  have hmem := findExpirationByStr_mem hf
  rcases (findExpirationByStr_iff hd hmem).mp hf with ⟨n, hn, -⟩ | ⟨hform, -⟩
  · exact parseExpiration_no_dash hn
  · rw [← hform, hd.format_eq]
    obtain ⟨expStr', hw⟩ := h underlying e hmem
    cases e with
    | days n => exact formatYmd_no_dash (by simp only [ExpirationDate.dayAt]; omega) 0
    | dateTime t =>
      obtain ⟨hdigits, -, hform'⟩ := parseExpiration_dateTime hw
      have hsame : Calendar.formatYmd ⟨ExpirationDate.dayAt s.market.now (.dateTime t), 0⟩ =
          expStr' := hform' ▸ Calendar.formatYmd_inj.mpr rfl
      rw [hsame]
      exact not_dash_of_digits hdigits

end AppState
end OptionChainBackend
