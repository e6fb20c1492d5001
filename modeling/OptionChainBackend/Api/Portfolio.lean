import OptionChainBackend.Api.Executions
import OptionChainBackend.Api.MidPrice
import OptionChainBackend.Api.Parts

/-!
The list of positions against the positions one by one. The list is accumulated over the map in
whatever order its iteration takes, with every addition checked.
-/
namespace OptionChainBackend
open Foundation Upstream MarketMaker Exchange

structure PositionResponse (F : Type) where
  symbol : String
  underlying : String
  quantity : ℤ
  averagePrice : ℕ
  currentPrice : Option ℕ
  unrealizedPnl : Option ℤ
  realizedPnl : ℤ
  deltaExposure : F
  notionalValue : Option ℕ
  deriving DecidableEq, Repr

structure PositionSummary (F : Type) where
  totalUnrealizedPnl : ℤ
  totalRealizedPnl : ℤ
  netDelta : F
  positionCount : ℕ
  unpricedCount : ℕ
  deriving DecidableEq, Repr

structure PositionsListResponse (F : Type) where
  positions : List (PositionResponse F)
  summary : PositionSummary F
  deriving DecidableEq, Repr

/-- `ok_or_else` with an internal error. -/
def orInternal {α : Type} (o : Option α) (message : String) : Except ApiError α :=
  match o with
  | some a => .ok a
  | none => .error (.internal message)

@[simp] theorem orInternal_some {α : Type} (a : α) (message : String) :
    orInternal (some a) message = .ok a := rfl

section Handlers
variable {B F : Type} [Upstream B] [F64 F]

/-- The price of the symbol, the gain and the worth at it; nothing where there is no price. -/
def figures (x : Exchange B) (symbol : String) (pos : PositionInfo) :
    Except ApiError (Option ℕ × Option ℤ × Option ℕ) :=
  match x.getCurrentPriceForSymbol symbol with
  | some price => do
    let pnl ← orInternal (pos.unrealizedPnl price) ("unrealized_pnl overflow for symbol " ++ symbol)
    let notional ← orInternal (pos.notionalValue price)
      ("notional_value overflow for symbol " ++ symbol)
    return (some price, some pnl, some notional)
  | none => .ok (none, none, none)

def markPosition (x : Exchange B) (symbol : String) (pos : PositionInfo) :
    Except ApiError (PositionResponse F) :=
  (figures x symbol pos).map fun marks => ⟨pos.symbol, pos.underlying, pos.quantity,
    pos.averagePrice, marks.1, marks.2.1, pos.realizedPnl, F64.ofNat 0, marks.2.2⟩

def AppState.getPosition (s : AppState B F) (symbol : String) :
    Except ApiError (PositionResponse F) :=
  match s.positions.lookup symbol with
  | some pos => markPosition s.market symbol pos
  | none => .error (.notFound ("Position not found: " ++ symbol))

/-- What `list_positions` accumulates. -/
structure Tally (F : Type) where
  unrealized : ℤ
  realized : ℤ
  netDelta : F
  unpriced : ℕ
  positions : List (PositionResponse F)

/-- A listed position, its mark added to the totals. -/
def Tally.enter (t : Tally F) (r : PositionResponse F) : Except ApiError (Tally F) :=
  match r.unrealizedPnl with
  | some pnl => do
    let unrealized ← orInternal (checkedI128 (t.unrealized + pnl))
      "total_unrealized_pnl accumulation overflow"
    return { t with
      unrealized := unrealized
      netDelta := F64.add t.netDelta r.deltaExposure
      positions := t.positions ++ [r] }
  | none => return { t with unpriced := t.unpriced + 1, positions := t.positions ++ [r] }

def Tally.next (x : Exchange B) (underlying : Option String) (t : Tally F) (pos : PositionInfo) :
    Except ApiError (Tally F) :=
  if underlying.all (pos.underlying = ·) then do
    let realized ← orInternal (checkedI128 (t.realized + pos.realizedPnl))
      "total_realized_pnl accumulation overflow"
    let t := { t with realized := realized }
    if pos.quantity = 0 then return t
    else do
      let r ← markPosition x pos.symbol pos
      t.enter r
  else return t

def narrow (total : ℤ) (message : String) : Except ApiError ℤ :=
  orInternal (if i64Min ≤ total ∧ total ≤ i64Max then some total else none) message

/-- `list_positions`, over the positions in the order the iteration meets them. -/
def AppState.listPositions (s : AppState B F) (met : List PositionInfo)
    (underlying : Option String) : Except ApiError (PositionsListResponse F) := do
  let t ← met.foldlM (Tally.next s.market underlying) ⟨0, 0, F64.ofNat 0, 0, []⟩
  let unrealized ← narrow t.unrealized "total_unrealized_pnl exceeds i64 range"
  let realized ← narrow t.realized "total_realized_pnl exceeds i64 range"
  return ⟨t.positions, ⟨unrealized, realized, t.netDelta, t.positions.length, t.unpriced⟩⟩

end Handlers

section Tallies
variable {B F : Type} [Upstream B] [F64 F] {x : Exchange B} {underlying : Option String}
  {t t' : Tally F} {pos : PositionInfo} {met : List PositionInfo} {rows : List (PositionResponse F)}
  {r : PositionResponse F}

/-- The underlying filter keeps the position. -/
def keeps (underlying : Option String) (pos : PositionInfo) : Bool :=
  underlying.all (pos.underlying = ·)

/-- The position is listed. -/
def lists (underlying : Option String) (pos : PositionInfo) : Bool :=
  keeps underlying pos && decide (pos.quantity ≠ 0)

theorem lists_iff : lists underlying pos = true ↔
    pos.quantity ≠ 0 ∧ ∀ u ∈ underlying, pos.underlying = u := by
  unfold lists keeps
  rw [Bool.and_eq_true_iff, decide_eq_true_eq, and_comm]
  cases underlying <;> simp

/-- A total is far enough from the limits of `i128` for `n` more values of `i64`. -/
def HasRoom (total : ℤ) (n : ℕ) : Prop :=
  -2 ^ 127 ≤ total - n * 2 ^ 63 ∧ total + n * 2 ^ 63 < 2 ^ 127

def InI64 (n : ℤ) : Prop := i64Min ≤ n ∧ n ≤ i64Max

instance : DecidablePred InI64 := fun _ => inferInstanceAs (Decidable (_ ∧ _))

theorem narrow_of {total : ℤ} (h : InI64 total) (message : String) :
    narrow total message = .ok total := by
  unfold narrow
  rw [if_pos (show _ ∧ _ from h)]
  rfl

theorem narrow_error {total : ℤ} (h : ¬ InI64 total) (message : String) :
    narrow total message = .error (.internal message) := by
  unfold narrow
  rw [if_neg (show ¬ (_ ∧ _) from h)]
  rfl

theorem HasRoom.add {total y : ℤ} {n : ℕ} (h : HasRoom total (n + 1)) (hy : InI64 y) :
    checkedI128 (total + y) = some (total + y) ∧ HasRoom (total + y) n := by
  unfold HasRoom at h ⊢
  unfold InI64 i64Min i64Max at hy
  push_cast at h
  refine ⟨PositionInfo.checkedI128_some (by omega) (by omega), by omega, by omega⟩

theorem HasRoom.mono {total : ℤ} {n : ℕ} (h : HasRoom total (n + 1)) : HasRoom total n := by
  unfold HasRoom at h ⊢
  push_cast at h
  omega

omit [F64 F] in
theorem figures_inI64 {symbol : String} {marks : Option ℕ × Option ℤ × Option ℕ}
    (h : figures x symbol pos = .ok marks) : ∀ pnl ∈ marks.2.1, InI64 pnl := by
  unfold figures at h
  split at h
  · rename_i price hprice
    cases hpnl : pos.unrealizedPnl price with
    | none =>
      rw [hpnl] at h
      cases h
    | some pnl =>
      rw [hpnl] at h
      cases hnotional : pos.notionalValue price with
      | none =>
        rw [hnotional] at h
        cases h
      | some notional =>
        rw [hnotional] at h
        obtain rfl := Except.ok.inj h
        intro v hv
        obtain rfl := Option.mem_some_iff.mp hv
        rw [PositionInfo.unrealizedPnl_eq] at hpnl
        split_ifs at hpnl with hfits
        obtain rfl := Option.some.inj hpnl
        exact hfits.2
  · obtain rfl := Except.ok.inj h
    exact fun _ hpnl => absurd hpnl (Option.not_mem_none _)

/-- What a mark leaves alone, and the worth it finds. -/
theorem markPosition_ok {symbol : String} (h : markPosition x symbol pos = .ok r) :
    (r.symbol = pos.symbol ∧ r.underlying = pos.underlying ∧ r.quantity = pos.quantity) ∧
      ∀ pnl ∈ r.unrealizedPnl, InI64 pnl := by
  unfold markPosition at h
  cases hfigures : figures x symbol pos with
  | error e =>
    rw [hfigures] at h
    cases h
  | ok marks =>
    rw [hfigures] at h
    obtain rfl := Except.ok.inj h
    exact ⟨⟨rfl, rfl, rfl⟩, figures_inI64 hfigures⟩

/-- The totals with a row of listed positions and a realized P&L added. -/
def Tally.plus (t : Tally F) (realized : ℤ) (rows : List (PositionResponse F)) : Tally F where
  unrealized := t.unrealized + (rows.filterMap PositionResponse.unrealizedPnl).sum
  realized := t.realized + realized
  netDelta := (rows.filter fun r => r.unrealizedPnl.isSome).foldl
    (fun d r => F64.add d r.deltaExposure) t.netDelta
  unpriced := t.unpriced + rows.countP fun r => r.unrealizedPnl.isNone
  positions := t.positions ++ rows

theorem Tally.plus_plus (t : Tally F) (n m : ℤ) (rows rows' : List (PositionResponse F)) :
    (t.plus n rows).plus m rows' = t.plus (n + m) (rows ++ rows') := by
  simp [plus, add_assoc]

theorem Tally.enter_ok {n : ℕ} (h : HasRoom t.unrealized (n + 1))
    (hr : ∀ pnl ∈ r.unrealizedPnl, InI64 pnl) :
    t.enter r = .ok (t.plus 0 [r]) ∧ HasRoom (t.plus 0 [r]).unrealized n := by
  unfold enter
  cases hpnl : r.unrealizedPnl with
  | none => simpa [plus, hpnl, pure, Except.pure] using h.mono
  | some pnl =>
    obtain ⟨hadd, hroom⟩ := h.add (hr pnl hpnl)
    simpa [plus, hpnl, hadd, bind, Except.bind, pure, Except.pure] using hroom

/-- What one position adds, when its mark is there. -/
theorem Tally.next_ok {n : ℕ} (hu : HasRoom t.unrealized (n + 1))
    (hr : HasRoom t.realized (n + 1)) (hpos : InI64 pos.realizedPnl)
    (hrows : ([pos].filter (lists underlying)).map (fun pos => markPosition x pos.symbol pos) =
      rows.map .ok) :
    ∃ t', t' = t.plus (([pos].filter (keeps underlying)).map PositionInfo.realizedPnl).sum rows ∧
      Tally.next x underlying t pos = .ok t' ∧ HasRoom t'.unrealized n ∧ HasRoom t'.realized n := by
  refine ⟨_, rfl, ?_⟩
  unfold Tally.next
  by_cases hkeep : keeps underlying pos = true
  · obtain ⟨hadd, hroom⟩ := hr.add hpos
    rw [if_pos (show underlying.all (pos.underlying = ·) = true from hkeep), hadd,
      List.filter_cons_of_pos hkeep]
    by_cases hq : pos.quantity = 0
    · obtain rfl : rows = [] := by simpa [lists, hq] using hrows.symm
      exact ⟨by simp [plus, hq, bind, Except.bind, pure, Except.pure],
        by simpa [plus] using hu.mono, by simpa [plus] using hroom⟩
    · have hlist : lists underlying pos = true := by simp [lists, hkeep, hq]
      obtain ⟨r, rfl, hmark⟩ : ∃ r, rows = [r] ∧ markPosition x pos.symbol pos = .ok r := by
        rw [List.filter_cons_of_pos hlist] at hrows
        obtain ⟨r, hrows, hmark⟩ := List.map_eq_singleton_iff.mp hrows.symm
        exact ⟨r, hrows, hmark.symm⟩
      have hwide : HasRoom (t.plus pos.realizedPnl []).unrealized (n + 1) := by simpa [plus] using hu
      obtain ⟨henter, hfits⟩ := enter_ok hwide (markPosition_ok hmark).2
      rw [plus_plus, add_zero, List.nil_append] at henter hfits
      refine ⟨?_, by simpa using hfits, by simpa [plus] using hroom⟩
      simp only [List.filter_nil, List.map_cons, List.map_nil, List.sum_singleton]
      rw [← henter]
      simp [plus, hq, hmark, bind, Except.bind]
  · obtain rfl : rows = [] := by simpa [lists, hkeep] using hrows.symm
    rw [if_neg (show ¬ underlying.all (pos.underlying = ·) = true from hkeep),
      List.filter_cons_of_neg hkeep]
    exact ⟨by simp [plus, pure, Except.pure], by simpa [plus] using hu.mono,
      by simpa [plus] using hr.mono⟩

theorem Tally.foldlM_ok (hpos : ∀ pos ∈ met, InI64 pos.realizedPnl)
    (hrows : (met.filter (lists underlying)).map (fun pos => markPosition x pos.symbol pos) =
      rows.map .ok) (hu : HasRoom t.unrealized met.length) (hr : HasRoom t.realized met.length) :
    met.foldlM (Tally.next x underlying) t =
      .ok (t.plus ((met.filter (keeps underlying)).map PositionInfo.realizedPnl).sum rows) := by
  induction met generalizing t rows with
  | nil =>
    obtain rfl : rows = [] := by simpa using hrows.symm
    simp [plus, pure, Except.pure]
  | cons pos met ih =>
    rw [← List.singleton_append, List.filter_append, List.map_append] at hrows
    obtain ⟨first, rest, rfl, hfirst, hrest⟩ := List.append_eq_map_iff.mp hrows
    obtain ⟨t', ht', hnext, hu', hr'⟩ := next_ok hu hr (hpos pos List.mem_cons_self) hfirst.symm
    have hsum : (((pos :: met).filter (keeps underlying)).map PositionInfo.realizedPnl).sum =
        (([pos].filter (keeps underlying)).map PositionInfo.realizedPnl).sum +
          ((met.filter (keeps underlying)).map PositionInfo.realizedPnl).sum := by
      rw [← List.sum_append, ← List.map_append, ← List.filter_append, List.singleton_append]
    rw [List.foldlM_cons, hnext, hsum, ← plus_plus, ← ht']
    exact ih (fun pos hmem => hpos pos (List.mem_cons_of_mem _ hmem)) hrest.symm hu' hr'

theorem Tally.next_error (hlist : lists underlying pos = true)
    (hmark : ∀ r : PositionResponse F, markPosition x pos.symbol pos ≠ .ok r) :
    Tally.next x underlying t pos ≠ .ok t' := by
  obtain ⟨hkeep, hq⟩ := Bool.and_eq_true_iff.mp hlist
  have hq : pos.quantity ≠ 0 := of_decide_eq_true hq
  intro h
  unfold Tally.next at h
  rw [if_pos (show underlying.all (pos.underlying = ·) = true from hkeep)] at h
  cases hadd : checkedI128 (t.realized + pos.realizedPnl) with
  | none =>
    rw [hadd] at h
    cases h
  | some realized =>
    cases hrow : (markPosition x pos.symbol pos : Except ApiError (PositionResponse F)) with
    | ok r => exact hmark r hrow
    | error e => simp [hadd, hq, hrow, bind, Except.bind] at h

/-- One listed position without a mark is enough to fail. -/
theorem Tally.foldlM_error (hpos : pos ∈ met) (hlist : lists underlying pos = true)
    (hmark : ∀ r : PositionResponse F, markPosition x pos.symbol pos ≠ .ok r) :
    ∀ t', met.foldlM (Tally.next x underlying) t ≠ .ok t' := by
  induction met generalizing t with
  | nil => cases hpos
  | cons pos' met ih =>
    intro t' h
    rw [List.foldlM_cons] at h
    cases hnext : Tally.next x underlying t pos' with
    | error e =>
      rw [hnext] at h
      cases h
    | ok t'' =>
      rw [hnext] at h
      rcases List.mem_cons.mp hpos with rfl | hpos
      · exact next_error hlist hmark hnext
      · exact ih hpos t' h

end Tallies

namespace AppState
variable {B F : Type} [Upstream B] {s : AppState B F}

theorem publishCancelled_data (a : OptionAddr) (o : Option RestingOrder) :
    (s.publishCancelled a o).toMarketData = s.toMarketData := by
  cases o <;> rfl

theorem placeReplacement_data [LawfulUpstream B] (hf : s.market.Fresh) (expStr key : String)
    (a : OptionAddr) (side : Side) (price q : ℕ) :
    (s.placeReplacement expStr key a side price q).2.toMarketData = s.toMarketData := by
  rcases placeReplacement_cases hf expStr key a side price q with ⟨x, he, -⟩ | ⟨r, x, he, -⟩ <;>
    rw [he] <;> rfl

theorem reconcile_data (s : AppState B F) (o : AcceptedBulkOrder) (cancel : Except String Bool) :
    (s.reconcile o cancel).toMarketData = s.toMarketData := by
  unfold reconcile
  dsimp only
  split_ifs
  · rfl
  · cases cancel <;> rfl

/-- What is kept by the recording of a fill is kept by whatever the handlers do. -/
theorem data_callsKeep [LawfulUpstream B] {P : MarketData → Prop}
    (hrecord : ∀ m symbol underlying side fill, P m → P (m.record symbol underlying side fill)) :
    CallsKeep fun s : AppState B F => P s.toMarketData := by
  have hall : ∀ {m symbol underlying side} {r : MatchResult}, P m →
      P (recordAll B m symbol underlying side r) := by
    intro m symbol underlying side r hm
    unfold recordAll
    apply List.foldlRecOn (motive := P)
    · exact hm
    · intro m hm fill _
      split_ifs
      · exact hrecord m symbol underlying side fill hm
      · exact hm
  constructor
  case limit =>
    intro s p body a tif hg h _
    rcases submitLimit_cases hg.fresh p.expStr a tif body with ⟨x, he, -⟩ | ⟨r, x, he, -, hs⟩
    · rw [he]
      exact h
    · rw [he, (acceptLimit_recorded (s := s) (x := x) (a := a) p.expStr body s.market.nextOrderId
        hs.filled.matched.positive).1.data]
      exact hall h
  case market =>
    intro s p body a hg h _
    rcases submitMarket_cases hg.fresh p.expStr a body with ⟨x, he, -⟩ | ⟨r, x, he, -, hs⟩
    · rw [he]
      exact h
    · rw [he, (acceptMarket_recorded (s := s) (x := x) (a := a) p.expStr body.side
        hs.filled.matched.positive).1.data]
      exact hall h
  case item =>
    intro s item hg h
    rcases submitSingleOrder_cases s item with ⟨e, -, he⟩ | ⟨a, r, hsome, he⟩
    · rw [he]
      exact h
    · obtain ⟨hl, hs⟩ := placeItem_accepted hg.fresh hsome
      obtain ⟨-, hu, -, -, -⟩ := locate_ok hl
      rw [he, (acceptItem_recorded item s.market.nextOrderId hu hs.filled.matched.positive).data]
      exact hall h
  case delete =>
    intro s p key a id _ h _
    rcases cancelAt_cases (s := s) a id key with ⟨e, x, he, -⟩ | ⟨x, he, -⟩ | ⟨x, he, -⟩
    · rw [he]
      exact h
    · rw [he, publishCancelled_data]
      exact h
    · rw [he]
      exact h
  case replace =>
    intro s p key a id o price q hg h _ _
    rcases s.replaceOrder_cases p.expStr key a id o price q with ⟨x, he, -⟩ | ⟨x, he, -, hc⟩
    · rw [he]
      exact h
    · rw [he, placeReplacement_data (hc.toRemoved.shrunk.wanes hg.fresh).fresh]
      exact h
  case cancel =>
    intro s key o _ h
    rcases cancelTracked_cases (s := s) key o with ⟨e, x, he, -⟩ | ⟨a, id, x, he, -⟩ <;>
      rw [he] <;> exact h
  case rollback =>
    intro s item o _ h
    unfold rollbackOrder
    dsimp only
    rw [reconcile_data]
    rcases cancelBulkItemOrder_cases (s := s) item o.orderId with ⟨res, x, he, -⟩ | ⟨a, x, he, -⟩ <;>
      rw [he] <;> exact h
  case untrack => exact fun _ _ h => h
  case save => exact fun _ _ h => h
  case restore =>
    intro s id _ h
    unfold restoreSnapshot
    split <;> exact h

theorem data_restKeeps [F64 F] {P : MarketData → Prop} :
    RestKeeps fun s : AppState B F => P s.toMarketData where
  idle _ _ h _ _ := h
  remove _ _ h := h
  engine _ _ h := h
  tick _ _ h := h

/-- Every position is kept under its symbol, and its realized P&L is a value of `i64`. -/
def Kept (m : MarketData) : Prop :=
  m.positions.All fun key pos => pos.symbol = key ∧ InI64 pos.realizedPnl

theorem update_kept (pos : PositionInfo) (q : ℤ) (price t : ℕ) (h : InI64 pos.realizedPnl) :
    (pos.update q price t).1.symbol = pos.symbol ∧ InI64 (pos.update q price t).1.realizedPnl := by
  unfold PositionInfo.update
  dsimp only
  split_ifs
  · exact ⟨rfl, h⟩
  all_goals exact ⟨rfl, PositionInfo.clampI64_bounds _⟩

theorem Kept.record {m : MarketData} (h : Kept m) (symbol underlying : String) (side : Side)
    (fill : ExecutedFill) : Kept (m.record symbol underlying side fill) := by
  apply Table.All.insert h
  cases hold : m.positions.lookup symbol with
  | none => exact ⟨rfl, show InI64 0 by decide⟩
  | some pos =>
    obtain ⟨hsymbol, hrealized⟩ := h symbol pos hold
    have hkept := update_kept pos (MarketData.fillQuantity side fill.quantity) fill.price
      fill.timestampMs hrealized
    exact ⟨hkept.1.trans hsymbol, hkept.2⟩

theorem reaches_kept [LawfulUpstream B] [F64 F] {ok : AppState B F → Request F → Prop}
    (h : Reaches Start step ok s) : Kept s.toMarketData := by
  have hstart : ∀ s : AppState B F, s.Start → Kept s.toMarketData := by
    rintro s ⟨quoter, rfl⟩
    exact Table.All.empty
  exact ((data_callsKeep fun _ _ _ _ _ hm => hm.record _ _ _ _).reaches data_restKeeps hstart h).2

omit [Upstream B] in
/-- The positions in some order of the map. -/
def storedPositions (s : AppState B F) : List PositionInfo := s.positions.entries.map (·.2)

omit [Upstream B] in
theorem Kept.lookup_iff (h : Kept s.toMarketData) {pos : PositionInfo} :
    pos ∈ s.storedPositions ↔ s.positions.lookup pos.symbol = some pos := by
  constructor
  · intro hpos
    obtain ⟨⟨key, pos⟩, hmem, rfl⟩ := List.mem_map.mp hpos
    have hlookup : s.positions.lookup key = some pos := AList.mem_lookup_iff.mpr hmem
    dsimp only
    rwa [(h key pos hlookup).1]
  · exact fun hlookup => List.mem_map.mpr ⟨_, AList.mem_lookup_iff.mp hlookup, rfl⟩

omit [Upstream B] in
theorem Kept.symbols_nodup (h : Kept s.toMarketData) :
    (s.storedPositions.map PositionInfo.symbol).Nodup := by
  have hkeys : s.storedPositions.map PositionInfo.symbol = s.positions.keys := by
    unfold storedPositions
    rw [List.map_map]
    apply List.map_congr_left
    rintro ⟨key, pos⟩ hmem
    exact (h key pos (AList.mem_lookup_iff.mpr hmem)).1
  rw [hkeys]
  exact s.positions.keys_nodup

variable [F64 F]

/-- The response lists the open positions of the underlying, as they are given one by one; its
totals take in the realized P&L of the flat ones too. -/
structure Lists (s : AppState B F) (underlying : Option String) (resp : PositionsListResponse F) :
    Prop where
  positions : ∀ r, r ∈ resp.positions ↔
    s.getPosition r.symbol = .ok r ∧ r.quantity ≠ 0 ∧ ∀ u ∈ underlying, r.underlying = u
  once : (resp.positions.map PositionResponse.symbol).Nodup
  realized : resp.summary.totalRealizedPnl =
    ((s.storedPositions.filter (keeps underlying)).map PositionInfo.realizedPnl).sum
  unrealized : resp.summary.totalUnrealizedPnl =
    (resp.positions.filterMap PositionResponse.unrealizedPnl).sum
  unpriced : resp.summary.unpricedCount =
    resp.positions.countP fun r => r.unrealizedPnl.isNone
  count : resp.summary.positionCount = resp.positions.length

variable {met : List PositionInfo} {underlying : Option String} {rows : List (PositionResponse F)}

theorem listPositions_ok (hpos : ∀ pos ∈ met, InI64 pos.realizedPnl) (hlen : met.length < 2 ^ 64)
    (hrows : (met.filter (lists underlying)).map (fun pos => markPosition s.market pos.symbol pos) =
      rows.map .ok) {resp : PositionsListResponse F} :
    s.listPositions met underlying = .ok resp ↔
      InI64 (rows.filterMap PositionResponse.unrealizedPnl).sum ∧
      InI64 ((met.filter (keeps underlying)).map PositionInfo.realizedPnl).sum ∧
      resp = ⟨rows, ⟨(rows.filterMap PositionResponse.unrealizedPnl).sum,
        ((met.filter (keeps underlying)).map PositionInfo.realizedPnl).sum,
        (rows.filter fun r => r.unrealizedPnl.isSome).foldl
          (fun d r => F64.add d r.deltaExposure) (F64.ofNat 0), rows.length,
        rows.countP fun r => r.unrealizedPnl.isNone⟩⟩ := by
  have hroom : HasRoom 0 met.length := by
    unfold HasRoom
    omega
  have hfold := Tally.foldlM_ok (t := ⟨0, 0, F64.ofNat 0, 0, []⟩) hpos hrows hroom hroom
  unfold listPositions
  rw [hfold]
  simp only [bind, Except.bind, Tally.plus, zero_add, List.nil_append, pure, Except.pure]
  by_cases hu : InI64 (rows.filterMap PositionResponse.unrealizedPnl).sum
  · by_cases hr : InI64 ((met.filter (keeps underlying)).map PositionInfo.realizedPnl).sum
    · rw [narrow_of hu, narrow_of hr]
      simp [hu, hr, eq_comm]
    · rw [narrow_of hu, narrow_error hr]
      simp [hr]
  · rw [narrow_error hu]
    simp [hu]

theorem Kept.getPosition (h : Kept s.toMarketData) {pos : PositionInfo}
    (hpos : pos ∈ s.storedPositions) :
    (s.getPosition pos.symbol : Except ApiError (PositionResponse F)) =
      markPosition s.market pos.symbol pos := by
  unfold AppState.getPosition
  rw [h.lookup_iff.mp hpos]

/-- The rows are the answers for the listed positions, each once. -/
theorem Kept.listed (h : Kept s.toMarketData) (hmet : met.Perm s.storedPositions)
    (hrows : (met.filter (lists underlying)).map (fun pos => markPosition s.market pos.symbol pos) =
      rows.map .ok) :
    (∀ r, r ∈ rows ↔ s.getPosition r.symbol = .ok r ∧ r.quantity ≠ 0 ∧
      ∀ u ∈ underlying, r.underlying = u) ∧ (rows.map PositionResponse.symbol).Nodup := by
  have hstored : ∀ {pos}, pos ∈ met.filter (lists underlying) →
      pos ∈ s.storedPositions ∧ lists underlying pos = true := fun hpos =>
    ⟨hmet.subset (List.mem_of_mem_filter hpos), (List.mem_filter.mp hpos).2⟩
  constructor
  · intro r
    rw [mem_rows hrows]
    constructor
    · rintro ⟨pos, hpos, hmark⟩
      obtain ⟨⟨hsymbol, hunderlying, hquantity⟩, -⟩ := markPosition_ok hmark
      obtain ⟨hmem, hlist⟩ := hstored hpos
      rw [hsymbol, hquantity, hunderlying, h.getPosition hmem]
      exact ⟨hmark, lists_iff.mp hlist⟩
    · rintro ⟨hget, hq, hu⟩
      unfold AppState.getPosition at hget
      cases hlookup : s.positions.lookup r.symbol with
      | none =>
        rw [hlookup] at hget
        cases hget
      | some pos =>
        rw [hlookup] at hget
        obtain ⟨⟨hsymbol, hunderlying, hquantity⟩, -⟩ := markPosition_ok hget
        have hmem : pos ∈ met := hmet.symm.subset (h.lookup_iff.mpr (hsymbol ▸ hlookup))
        have hlist : lists underlying pos = true := by
          rw [lists_iff, ← hunderlying, ← hquantity]
          exact ⟨hq, hu⟩
        exact ⟨pos, List.mem_filter.mpr ⟨hmem, hlist⟩, hsymbol ▸ hget⟩
  · have hsymbols : rows.map PositionResponse.symbol =
        (met.filter (lists underlying)).map PositionInfo.symbol :=
      map_rows (fun pos _ r hmark => (markPosition_ok hmark).1.1) hrows
    rw [hsymbols]
    exact ((hmet.map _).nodup_iff.mpr h.symbols_nodup).sublist (List.filter_sublist.map _)

/-- In every run the list of positions agrees with the positions asked for one by one, in whatever
order the map is iterated; and it fails just when one of those it would list fails, or a total is
beyond `i64`. -/
theorem positions_listed [LawfulUpstream B] {ok : AppState B F → Request F → Prop}
    (h : Reaches Start step ok s) (hmet : met.Perm s.storedPositions) (hlen : met.length < 2 ^ 64)
    (underlying : Option String) :
    (∀ resp, s.listPositions met underlying = .ok resp → s.Lists underlying resp) ∧
    ((∃ resp, s.listPositions met underlying = .ok resp) ↔
      (∀ pos ∈ s.storedPositions, lists underlying pos → ∃ r, s.getPosition pos.symbol = .ok r) ∧
      InI64 ((s.storedPositions.filter (keeps underlying)).map PositionInfo.realizedPnl).sum ∧
      InI64 ((s.storedPositions.filter (lists underlying)).filterMap fun pos =>
        (s.getPosition pos.symbol).toOption.bind PositionResponse.unrealizedPnl).sum) := by
  have hkept := reaches_kept h
  have hpos : ∀ pos ∈ met, InI64 pos.realizedPnl := fun pos hmem =>
    (hkept _ pos (hkept.lookup_iff.mp (hmet.subset hmem))).2
  have hrealized : ((met.filter (keeps underlying)).map PositionInfo.realizedPnl).sum =
      ((s.storedPositions.filter (keeps underlying)).map PositionInfo.realizedPnl).sum :=
    ((hmet.filter _).map _).sum_eq
  by_cases hall : ∀ pos ∈ s.storedPositions, lists underlying pos →
      ∃ r : PositionResponse F, s.getPosition pos.symbol = .ok r
  · obtain ⟨rows, hrows⟩ := exists_rows (l := met.filter (lists underlying))
      (f := fun pos => (markPosition s.market pos.symbol pos : Except ApiError (PositionResponse F)))
      fun pos hmem => by
        obtain ⟨hmem, hlist⟩ := List.mem_filter.mp hmem
        obtain ⟨r, hr⟩ := hall pos (hmet.subset hmem) hlist
        exact ⟨r, hkept.getPosition (hmet.subset hmem) ▸ hr⟩
    have hunrealized : ((s.storedPositions.filter (lists underlying)).filterMap fun pos =>
        (s.getPosition pos.symbol).toOption.bind PositionResponse.unrealizedPnl).sum =
          (rows.filterMap PositionResponse.unrealizedPnl).sum := by
      let pnl (e : Except ApiError (PositionResponse F)) : Option ℤ :=
        e.toOption.bind PositionResponse.unrealizedPnl
      have hasked : (met.filter (lists underlying)).map (fun pos => s.getPosition pos.symbol) =
          rows.map .ok := by
        rw [← hrows]
        apply List.map_congr_left
        exact fun pos hmem => hkept.getPosition (hmet.subset (List.mem_of_mem_filter hmem))
      calc _ = ((met.filter (lists underlying)).filterMap fun pos =>
              pnl (s.getPosition pos.symbol)).sum := (((hmet.filter _).filterMap _).sum_eq).symm
        _ = (((met.filter (lists underlying)).map fun pos =>
              s.getPosition pos.symbol).filterMap pnl).sum := by rw [List.filterMap_map]; rfl
        _ = _ := by rw [hasked, List.filterMap_map]; rfl
    obtain ⟨hpositions, honce⟩ := hkept.listed hmet hrows
    refine ⟨fun resp hresp => ?_, ?_⟩
    · obtain ⟨-, -, rfl⟩ := (listPositions_ok hpos hlen hrows).mp hresp
      exact ⟨hpositions, honce, hrealized, rfl, rfl, rfl⟩
    · rw [hunrealized, ← hrealized]
      constructor
      · rintro ⟨resp, hresp⟩
        obtain ⟨hu, hr, -⟩ := (listPositions_ok hpos hlen hrows).mp hresp
        exact ⟨hall, hr, hu⟩
      · rintro ⟨-, hr, hu⟩
        exact ⟨_, (listPositions_ok hpos hlen hrows).mpr ⟨hu, hr, rfl⟩⟩
  · have hfail : ∀ resp, s.listPositions met underlying ≠ .ok resp := by
      push Not at hall
      obtain ⟨pos, hmem, hlist, hnone⟩ := hall
      have hmark := fun r : PositionResponse F => hkept.getPosition (F := F) hmem ▸ hnone r
      intro resp hresp
      cases hfold : met.foldlM (Tally.next s.market underlying)
          (⟨0, 0, F64.ofNat 0, 0, []⟩ : Tally F) with
      | ok t => exact Tally.foldlM_error (hmet.symm.subset hmem) hlist hmark t hfold
      | error e =>
        unfold listPositions at hresp
        rw [hfold] at hresp
        cases hresp
    exact ⟨fun resp hresp => absurd hresp (hfail resp),
      ⟨fun ⟨resp, hresp⟩ => absurd hresp (hfail resp), fun hok => absurd hok.1 hall⟩⟩

omit [Upstream B] [F64 F] in
theorem positions_listed_bought : ∃ resp,
    (oneBought.foldl step reference).listPositions
      (oneBought.foldl step reference).storedPositions (some "BTC") = .ok resp ∧
    (oneBought.foldl step reference).Lists (some "BTC") resp := by
  have hrun : Reaches Start step (fun _ _ => True) (oneBought.foldl step reference) :=
    (Reaches.start reference_start).run ⟨trivial, trivial, trivial⟩
  have hresp : (oneBought.foldl step reference).listPositions
      (oneBought.foldl step reference).storedPositions (some "BTC") =
    .ok ⟨[⟨"BTC-30-10000-C", "BTC", 1, 100, some 100, some 0, 0, 0, some 100⟩],
      ⟨0, 0, 0, 1, 0⟩⟩ := by
    decide +kernel
  exact ⟨_, hresp, (positions_listed hrun (.refl _) (by decide +kernel) (some "BTC")).1 _ hresp⟩

end AppState
end OptionChainBackend
