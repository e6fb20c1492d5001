import OptionChainBackend.Api.Ledger
import OptionChainBackend.Foundation.Listing

/-!
`list_executions`. The handler reads the underlying off the front of a symbol and ends the last day
at the start of its last second; what it lists is what the query means exactly when no execution
falls between the two readings.
-/
namespace OptionChainBackend
open Foundation Upstream MarketMaker

structure ExecutionsQuery where
  fromDate : Option String
  toDate : Option String
  underlying : Option String
  symbol : Option String
  side : Option String
  limit : ℕ
  offset : ℕ
  deriving DecidableEq, Repr

structure ExecutionSummary (F : Type) where
  totalExecutions : ℕ
  totalVolume : ℕ
  totalEdge : ℤ
  makerRatio : F

structure ExecutionsListResponse (F : Type) where
  executions : List ExecutionInfo
  summary : ExecutionSummary F

section Handler

/-- `timestamp_millis() as u64` at midnight of a day and `ms` milliseconds. -/
def dayTs (day : ℤ) (ms : ℤ) : ℕ := ((day * 86400000 + ms) % 2 ^ 64).toNat

def sideFilter (side : String) : Option Side :=
  if lowercase side = "buy" then some .buy
  else if lowercase side = "sell" then some .sell
  else none

namespace ExecutionsQuery
variable (parseDate : String → Option ℤ) (q : ExecutionsQuery)

/-- The days of the bounds that can be read. `parseDate` is `NaiveDate::parse_from_str` with
`%Y-%m-%d`, as days since the epoch. -/
def fromDay : Option ℤ := q.fromDate.bind parseDate

def toDay : Option ℤ := q.toDate.bind parseDate

def keepsUnderlying (e : ExecutionInfo) : Bool :=
  q.underlying.all fun u => u.toList.isPrefixOf e.symbol.toList

def keepsSymbol (e : ExecutionInfo) : Bool := q.symbol.all (e.symbol = ·)

def keepsSide (e : ExecutionInfo) : Bool := (q.side.bind sideFilter).all (e.side = ·)

def keepsFrom (e : ExecutionInfo) : Bool :=
  (q.fromDay parseDate).all fun day => dayTs day 0 ≤ e.timestampMs

def keepsTo (e : ExecutionInfo) : Bool :=
  (q.toDay parseDate).all fun day => e.timestampMs ≤ dayTs day 86399000

end ExecutionsQuery

/-- The executions the filters retain, the most recent first. -/
def retainExecutions (parseDate : String → Option ℤ) (executions : List ExecutionInfo)
    (q : ExecutionsQuery) : List ExecutionInfo :=
  let executions := executions.filter q.keepsUnderlying
  let executions := executions.filter q.keepsSymbol
  let executions := executions.filter q.keepsSide
  let executions := executions.filter (q.keepsFrom parseDate)
  let executions := executions.filter (q.keepsTo parseDate)
  sortDescending ExecutionInfo.timestampMs executions

def totalVolume (executions : List ExecutionInfo) : Except ApiError ℕ :=
  match tryTotal checkedU128 (executions.map ExecutionInfo.quantity) with
  | none => .error (.internal "total_volume accumulation overflow")
  | some wide =>
    if wide < 2 ^ 64 then .ok wide else .error (.internal "total_volume exceeds u64 range")

def totalEdge (executions : List ExecutionInfo) : Except ApiError ℤ :=
  match tryTotal checkedI128 (executions.filterMap ExecutionInfo.edge) with
  | none => .error (.internal "total_edge accumulation overflow")
  | some wide =>
    if i64Min ≤ wide ∧ wide ≤ i64Max then .ok wide
    else .error (.internal "total_edge exceeds i64 range")

def makerRatio {F : Type} [F64 F] (executions : List ExecutionInfo) : F :=
  if 0 < executions.length then
    F64.div (F64.ofNat (executions.filter ExecutionInfo.isMaker).length)
      (F64.ofNat executions.length)
  else F64.ofNat 0

/-- The handler over the stored executions in the order the map yields them. -/
def listExecutions {F : Type} [F64 F] (parseDate : String → Option ℤ)
    (executions : List ExecutionInfo) (q : ExecutionsQuery) :
    Except ApiError (ExecutionsListResponse F) := do
  let executions := retainExecutions parseDate executions q
  let volume ← totalVolume executions
  let edge ← totalEdge executions
  return ⟨(executions.drop q.offset).take q.limit,
    ⟨executions.length, volume, edge, makerRatio executions⟩⟩

end Handler

/-- An execution and the underlying of its option. -/
structure ExecutionReport where
  execution : ExecutionInfo
  underlying : String
  symbol : ∃ segment strike style, execution.symbol = symbolOf underlying segment strike style
  edge : ∀ x ∈ execution.edge, i64Min ≤ x ∧ x ≤ i64Max

namespace ExecutionReport

/-- The symbol starts with the underlying. -/
theorem isPrefix (r : ExecutionReport) : r.underlying.toList <+: r.execution.symbol.toList := by
  obtain ⟨segment, strike, style, hs⟩ := r.symbol
  simp [hs, symbolOf]

end ExecutionReport

section Totals
variable {executions : List ExecutionInfo}

/-- The totals of the summary are in range. -/
structure TotalsFit (executions : List ExecutionInfo) : Prop where
  volume : (executions.map ExecutionInfo.quantity).sum < 2 ^ 64
  edge : i64Min ≤ (executions.filterMap ExecutionInfo.edge).sum ∧
    (executions.filterMap ExecutionInfo.edge).sum ≤ i64Max

theorem TotalsFit.perm {executions' : List ExecutionInfo} (h : TotalsFit executions)
    (hp : executions.Perm executions') : TotalsFit executions' where
  volume := by simpa [(hp.map ExecutionInfo.quantity).sum_eq] using h.volume
  edge := by simpa [(hp.filterMap ExecutionInfo.edge).sum_eq] using h.edge

theorem checkedU128_sound (n m : ℕ) (h : checkedU128 n = some m) : m = n := by
  unfold checkedU128 at h
  split_ifs at h
  simpa using h.symm

theorem totalVolume_ok {v : ℕ} : totalVolume executions = .ok v ↔
    v = (executions.map ExecutionInfo.quantity).sum ∧
      (executions.map ExecutionInfo.quantity).sum < 2 ^ 64 := by
  unfold totalVolume
  constructor
  · intro h
    split at h
    · cases h
    · rename_i wide hwide
      obtain rfl := tryTotal_sound checkedU128_sound hwide
      split_ifs at h with hlt
      exact ⟨(Except.ok.inj h).symm, hlt⟩
  · rintro ⟨rfl, hlt⟩
    have hall : tryTotal checkedU128 (executions.map ExecutionInfo.quantity) =
        some (executions.map ExecutionInfo.quantity).sum := by
      apply tryTotal_of_initial
      intro l hl
      have hle := hl.sublist.sum_le_sum fun _ _ => Nat.zero_le _
      unfold checkedU128
      rw [if_pos (by omega)]
    simp only [hall, if_pos hlt]

/-- Fewer than `2 ^ 64` values of `i64` add up within `i128`. -/
theorem sum_i64_bounds {l : List ℤ} (h : ∀ x ∈ l, i64Min ≤ x ∧ x ≤ i64Max) :
    -(l.length * 2 ^ 63 : ℤ) ≤ l.sum ∧ l.sum ≤ l.length * 2 ^ 63 := by
  induction l with
  | nil => simp
  | cons x l ih =>
    obtain ⟨hlo, hhi⟩ := ih fun y hy => h y (List.mem_cons_of_mem _ hy)
    have hx := h x List.mem_cons_self
    unfold i64Min i64Max at hx
    push_cast [List.length_cons, List.sum_cons]
    constructor <;> linarith

theorem totalEdge_ok (hlen : executions.length < 2 ^ 64)
    (hedge : ∀ e ∈ executions, ∀ x ∈ e.edge, i64Min ≤ x ∧ x ≤ i64Max) {v : ℤ} :
    totalEdge executions = .ok v ↔ v = (executions.filterMap ExecutionInfo.edge).sum ∧
      i64Min ≤ (executions.filterMap ExecutionInfo.edge).sum ∧
      (executions.filterMap ExecutionInfo.edge).sum ≤ i64Max := by
  have hall : tryTotal checkedI128 (executions.filterMap ExecutionInfo.edge) =
      some (executions.filterMap ExecutionInfo.edge).sum := by
    apply tryTotal_of_initial
    intro l hl
    have hshort : l.length < 2 ^ 64 := by
      have hle := hl.length_le.trans (List.length_filterMap_le _ _)
      omega
    obtain ⟨hlo, hhi⟩ := sum_i64_bounds (l := l) fun x hx => by
      obtain ⟨e, he, hex⟩ := List.mem_filterMap.mp (hl.subset hx)
      exact hedge e he x hex
    unfold checkedI128
    rw [if_pos ⟨by omega, by omega⟩]
  unfold totalEdge
  simp only [hall]
  constructor
  · intro h
    split_ifs at h with hin
    exact ⟨(Except.ok.inj h).symm, hin⟩
  · rintro ⟨rfl, hin⟩
    rw [if_pos hin]

end Totals

namespace ExecutionsQuery
variable {parseDate : String → Option ℤ} {q : ExecutionsQuery} {r : ExecutionReport}

section Filters

/-- What the query means: its side is that of the execution, and the last day ends with its last
millisecond. Text that is no date bounds nothing. -/
@[mk_iff] structure Meets (parseDate : String → Option ℤ) (q : ExecutionsQuery)
    (r : ExecutionReport) : Prop where
  underlying : ∀ u ∈ q.underlying, r.underlying = u
  symbol : ∀ s ∈ q.symbol, r.execution.symbol = s
  side : ∀ s ∈ q.side, sideFilter s = some r.execution.side
  fromDate : ∀ day ∈ q.fromDay parseDate, day * 86400000 ≤ (r.execution.timestampMs : ℤ)
  toDate : ∀ day ∈ q.toDay parseDate,
    (r.execution.timestampMs : ℤ) ≤ day * 86400000 + 86399999

instance : DecidablePred (q.Meets parseDate) := fun r =>
  decidable_of_iff _ (meets_iff parseDate q r).symm

/-- What the code retains. -/
@[mk_iff] structure Keeps (parseDate : String → Option ℤ) (q : ExecutionsQuery)
    (e : ExecutionInfo) : Prop where
  underlying : ∀ u ∈ q.underlying, u.toList <+: e.symbol.toList
  symbol : ∀ s ∈ q.symbol, e.symbol = s
  side : ∀ side ∈ q.side.bind sideFilter, e.side = side
  fromDate : ∀ day ∈ q.fromDay parseDate, dayTs day 0 ≤ e.timestampMs
  toDate : ∀ day ∈ q.toDay parseDate, e.timestampMs ≤ dayTs day 86399000

instance : DecidablePred (q.Keeps parseDate) := fun e =>
  decidable_of_iff _ (keeps_iff parseDate q e).symm

/-- The two readings of the query do not part on the execution: if retained, it is of the
underlying asked for, the side can be read and the last day is not before 1970; if meant, it is not
in the last 999 milliseconds of the last day, and the first day is not before 1970. -/
structure Clear (parseDate : String → Option ℤ) (q : ExecutionsQuery) (r : ExecutionReport) :
    Prop where
  underlying : q.Keeps parseDate r.execution → ∀ u ∈ q.underlying, r.underlying = u
  side : q.Keeps parseDate r.execution → ∀ s ∈ q.side, (sideFilter s).isSome = true
  toDay : q.Keeps parseDate r.execution → ∀ day ∈ q.toDay parseDate, 0 ≤ day
  lastSecond : q.Meets parseDate r → ∀ day ∈ q.toDay parseDate,
    (r.execution.timestampMs : ℤ) ≤ day * 86400000 + 86399000
  fromDay : q.Meets parseDate r → ∀ day ∈ q.fromDay parseDate,
    0 ≤ day ∨ 2 ^ 64 + day * 86400000 ≤ (r.execution.timestampMs : ℤ)

theorem keeps_eq (e : ExecutionInfo) : (q.keepsUnderlying e && q.keepsSymbol e && q.keepsSide e &&
    q.keepsFrom parseDate e && q.keepsTo parseDate e) = decide (q.Keeps parseDate e) := by
  rw [Bool.eq_iff_iff, decide_eq_true_iff, keeps_iff]
  simp [keepsUnderlying, keepsSymbol, keepsSide, keepsFrom, keepsTo, Option.all_eq_true,
    Option.bind_eq_some_iff, and_assoc]

theorem retainExecutions_eq (executions : List ExecutionInfo) :
    retainExecutions parseDate executions q =
      sortDescending ExecutionInfo.timestampMs (executions.filter (q.Keeps parseDate ·)) := by
  have hfilter : executions.filter (q.Keeps parseDate ·) = ((((executions.filter
      q.keepsUnderlying).filter q.keepsSymbol).filter q.keepsSide).filter
        (q.keepsFrom parseDate)).filter (q.keepsTo parseDate) := by
    simp only [List.filter_filter]
    apply List.filter_congr
    intro e _
    rw [← keeps_eq]
    ac_rfl
  rw [hfilter]
  rfl

/-- A day of the calendar in milliseconds, cast to `u64`. -/
theorem dayTs_of_nonneg {day ms : ℤ} (hday : |day| < 10 ^ 8) (h0 : 0 ≤ day)
    (hms : 0 ≤ ms ∧ ms < 86400000) : (dayTs day ms : ℤ) = day * 86400000 + ms := by
  have hlt := (abs_lt.mp hday).2
  unfold dayTs
  omega

theorem dayTs_of_neg {day ms : ℤ} (hday : |day| < 10 ^ 8) (h0 : day < 0)
    (hms : 0 ≤ ms ∧ ms < 86400000) : (dayTs day ms : ℤ) = 2 ^ 64 + day * 86400000 + ms := by
  have hlt := (abs_lt.mp hday).1
  unfold dayTs
  omega

variable (hparse : ∀ text day, parseDate text = some day → |day| < 10 ^ 8)
include hparse

theorem abs_day {text : Option String} {day : ℤ} (h : day ∈ text.bind parseDate) :
    |day| < 10 ^ 8 := by
  obtain ⟨text, -, htext⟩ := Option.bind_eq_some_iff.mp h
  exact hparse text day htext

/-- An execution is clear exactly when the two readings agree on it. -/
theorem clear_iff :
    q.Clear parseDate r ↔ (q.Keeps parseDate r.execution ↔ q.Meets parseDate r) := by
  have hms0 : (0 : ℤ) ≤ 0 ∧ (0 : ℤ) < 86400000 := by omega
  have hms : (0 : ℤ) ≤ 86399000 ∧ (86399000 : ℤ) < 86400000 := by omega
  constructor
  · intro hc
    constructor
    · intro hk
      refine ⟨hc.underlying hk, hk.symbol, fun s hs => ?_, fun day hday => ?_, fun day hday => ?_⟩
      · obtain ⟨side, hside⟩ := Option.isSome_iff_exists.mp (hc.side hk s hs)
        rw [hside, hk.side side (Option.bind_eq_some_iff.mpr ⟨s, hs, hside⟩)]
      · have hts := hk.fromDate day hday
        have habs := abs_day hparse hday
        rcases le_or_gt 0 day with h0 | h0
        · have hcast := dayTs_of_nonneg habs h0 hms0
          omega
        · omega
      · have hts := hk.toDate day hday
        have hcast := dayTs_of_nonneg (abs_day hparse hday) (hc.toDay hk day hday) hms
        omega
    · intro hm
      refine ⟨fun u hu => ?_, hm.symbol, fun side hbind => ?_, fun day hday => ?_,
        fun day hday => ?_⟩
      · rw [← hm.underlying u hu]
        exact r.isPrefix
      · obtain ⟨s, hs, hside⟩ := Option.bind_eq_some_iff.mp hbind
        exact Option.some.inj ((hm.side s hs).symm.trans hside)
      · have hts := hm.fromDate day hday
        have habs := abs_day hparse hday
        rcases le_or_gt 0 day with h0 | h0
        · have hcast := dayTs_of_nonneg habs h0 hms0
          omega
        · have hcast := dayTs_of_neg habs h0 hms0
          have hwrapped := hc.fromDay hm day hday
          omega
      · have hts := hm.toDate day hday
        have hlast := hc.lastSecond hm day hday
        have h0 : 0 ≤ day := by omega
        have hcast := dayTs_of_nonneg (abs_day hparse hday) h0 hms
        omega
  · intro h
    refine ⟨fun hk => (h.mp hk).underlying, fun hk s hs => ?_, fun hk day hday => ?_,
      fun hm day hday => ?_, fun hm day hday => ?_⟩
    · simp [(h.mp hk).side s hs]
    · have hts := (h.mp hk).toDate day hday
      omega
    · have hts := hm.toDate day hday
      have hkept := (h.mpr hm).toDate day hday
      have h0 : 0 ≤ day := by omega
      have hcast := dayTs_of_nonneg (abs_day hparse hday) h0 hms
      omega
    · have hkept := (h.mpr hm).fromDate day hday
      rcases le_or_gt 0 day with h0 | h0
      · exact .inl h0
      · have hcast := dayTs_of_neg (abs_day hparse hday) h0 hms0
        exact .inr (by omega)

end Filters
end ExecutionsQuery

section Listing
variable {parseDate : String → Option ℤ} {q : ExecutionsQuery} {reports : List ExecutionReport}

/-- Every page and the summary of the answer are those of the executions the query means, the most
recent first. -/
def ListsExactly (F : Type) [F64 F] (parseDate : String → Option ℤ)
    (reports : List ExecutionReport) (q : ExecutionsQuery) : Prop :=
  ∃ sorted : List ExecutionReport, sorted.Perm (reports.filter (q.Meets parseDate ·)) ∧
    sorted.Pairwise (fun r r' => r'.execution.timestampMs ≤ r.execution.timestampMs) ∧
    ∀ offset limit, ∃ resp : ExecutionsListResponse F,
      listExecutions parseDate (reports.map ExecutionReport.execution)
        { q with offset := offset, limit := limit } = .ok resp ∧
      resp.executions = ((sorted.drop offset).take limit).map ExecutionReport.execution ∧
      resp.summary.totalExecutions = sorted.length ∧
      resp.summary.totalVolume = (sorted.map fun r => r.execution.quantity).sum

variable {F : Type} [F64 F]

/-- The answer on any page of the query. -/
theorem listExecutions_ok {executions : List ExecutionInfo} {resp : ExecutionsListResponse F}
    {offset limit : ℕ} :
    listExecutions parseDate executions { q with offset := offset, limit := limit } = .ok resp ↔
      ∃ volume edge, totalVolume (retainExecutions parseDate executions q) = .ok volume ∧
        totalEdge (retainExecutions parseDate executions q) = .ok edge ∧
        resp = ⟨((retainExecutions parseDate executions q).drop offset).take limit,
          ⟨(retainExecutions parseDate executions q).length, volume, edge,
            makerRatio (retainExecutions parseDate executions q)⟩⟩ := by
  have hsame : retainExecutions parseDate executions { q with offset := offset, limit := limit } =
      retainExecutions parseDate executions q := rfl
  unfold listExecutions
  simp only [hsame, bind, Except.bind, pure, Except.pure]
  cases totalVolume (retainExecutions parseDate executions q) with
  | error e => simp
  | ok volume =>
    cases totalEdge (retainExecutions parseDate executions q) with
    | error e => simp
    | ok edge => simp [eq_comm]

/-- The retained executions are the retained reports, in the same order. -/
theorem retainExecutions_reports : retainExecutions parseDate
    (reports.map ExecutionReport.execution) q =
      (sortDescending (ExecutionInfo.timestampMs ∘ ExecutionReport.execution)
        (reports.filter (q.Keeps parseDate ·.execution))).map ExecutionReport.execution := by
  rw [ExecutionsQuery.retainExecutions_eq, List.filter_map, map_sortDescending]
  rfl

/-- An exact listing retains as many executions as are meant. -/
theorem ListsExactly.length_eq (h : ListsExactly F parseDate reports q) :
    (retainExecutions parseDate (reports.map ExecutionReport.execution) q).length =
      (reports.filter (q.Meets parseDate ·)).length := by
  obtain ⟨sorted, hperm, -, hpages⟩ := h
  obtain ⟨resp, hresp, -, htotal, -⟩ := hpages 0 0
  obtain ⟨volume, edge, -, -, rfl⟩ := listExecutions_ok.mp hresp
  exact htotal.trans hperm.length_eq

theorem retainExecutions_perm (executions : List ExecutionInfo) :
    (retainExecutions parseDate executions q).Perm (executions.filter (q.Keeps parseDate ·)) := by
  rw [ExecutionsQuery.retainExecutions_eq]
  exact sortDescending_perm _ _

/-- The totals of the retained executions go through exactly when they are in range. -/
theorem retained_totals (hlen : reports.length < 2 ^ 64) :
    (∃ volume edge,
      totalVolume (retainExecutions parseDate (reports.map ExecutionReport.execution) q) =
        .ok volume ∧
      totalEdge (retainExecutions parseDate (reports.map ExecutionReport.execution) q) =
        .ok edge) ↔
      TotalsFit (retainExecutions parseDate (reports.map ExecutionReport.execution) q) := by
  have hperm : (retainExecutions parseDate (reports.map ExecutionReport.execution) q).Perm
      ((reports.map ExecutionReport.execution).filter (q.Keeps parseDate ·)) :=
    retainExecutions_perm _
  have hshort :
      (retainExecutions parseDate (reports.map ExecutionReport.execution) q).length < 2 ^ 64 := by
    have hle := hperm.length_eq.trans_le (List.length_filter_le _ _)
    rw [List.length_map] at hle
    omega
  have hedge : ∀ e ∈ retainExecutions parseDate (reports.map ExecutionReport.execution) q,
      ∀ x ∈ e.edge, i64Min ≤ x ∧ x ≤ i64Max := by
    intro e he
    obtain ⟨r, -, rfl⟩ := List.mem_map.mp (List.mem_filter.mp (hperm.mem_iff.mp he)).1
    exact r.edge
  constructor
  · rintro ⟨volume, edge, hv, he⟩
    exact ⟨(totalVolume_ok.mp hv).2, ((totalEdge_ok hshort hedge).mp he).2⟩
  · intro hfit
    exact ⟨_, _, totalVolume_ok.mpr ⟨rfl, hfit.volume⟩,
      (totalEdge_ok hshort hedge).mpr ⟨rfl, hfit.edge⟩⟩

/-- The listing is exact exactly when no execution falls between the two readings of the query and
the totals fit. -/
theorem list_executions_exact_iff
    (hparse : ∀ text day, parseDate text = some day → |day| < 10 ^ 8)
    (hlen : reports.length < 2 ^ 64) (q : ExecutionsQuery) :
    ListsExactly F parseDate reports q ↔ (∀ r ∈ reports, q.Clear parseDate r) ∧
      TotalsFit ((reports.filter (q.Meets parseDate ·)).map ExecutionReport.execution) := by
  constructor
  · rintro ⟨sorted, hperm, -, hpages⟩
    have hwhole : retainExecutions parseDate (reports.map ExecutionReport.execution) q =
        sorted.map ExecutionReport.execution := by
      obtain ⟨resp, hresp, hexecutions, -, -⟩ := hpages 0 (sorted.length +
        (retainExecutions parseDate (reports.map ExecutionReport.execution) q).length)
      obtain ⟨volume, edge, -, -, rfl⟩ := listExecutions_ok.mp hresp
      rwa [List.drop_zero, List.drop_zero, List.take_of_length_le (Nat.le_add_left _ _),
        List.take_of_length_le (Nat.le_add_right _ _)] at hexecutions
    have hmeant := hperm.map ExecutionReport.execution
    rw [← hwhole] at hmeant
    have hagree := agree_of_perm ((retainExecutions_perm _).symm.trans hmeant)
    refine ⟨fun r hr => (ExecutionsQuery.clear_iff hparse).mpr ?_, ?_⟩
    · simpa using hagree r hr
    · obtain ⟨resp, hresp, -⟩ := hpages 0 0
      obtain ⟨volume, edge, hv, he, -⟩ := listExecutions_ok.mp hresp
      exact ((retained_totals hlen).mp ⟨volume, edge, hv, he⟩).perm hmeant
  · rintro ⟨hclear, hfit⟩
    have hsame : reports.filter (q.Keeps parseDate ·.execution) =
        reports.filter (q.Meets parseDate ·) := by
      apply List.filter_congr
      intro r hr
      rw [decide_eq_decide]
      exact (ExecutionsQuery.clear_iff hparse).mp (hclear r hr)
    have hwhole : retainExecutions parseDate (reports.map ExecutionReport.execution) q =
        (sortDescending (ExecutionInfo.timestampMs ∘ ExecutionReport.execution)
          (reports.filter (q.Meets parseDate ·))).map ExecutionReport.execution := by
      rw [← hsame]
      exact retainExecutions_reports
    have hperm := sortDescending_perm (ExecutionInfo.timestampMs ∘ ExecutionReport.execution)
      (reports.filter (q.Meets parseDate ·))
    refine ⟨_, hperm, sortDescending_pairwise _ _, fun offset limit => ?_⟩
    obtain ⟨volume, edge, hv, he⟩ := (retained_totals hlen).mpr
      (hfit.perm (hwhole ▸ (hperm.map ExecutionReport.execution).symm))
    refine ⟨_, listExecutions_ok.mpr ⟨volume, edge, hv, he, rfl⟩, ?_, ?_, ?_⟩
    · simp only [hwhole, List.map_take, List.map_drop]
    · simp only [hwhole, List.length_map]
    · rw [(totalVolume_ok.mp hv).1, hwhole, List.map_map]
      rfl

end Listing

section Stored
namespace AppState
variable {B F : Type} [Upstream B] [LawfulUpstream B] [F64 F] {s : AppState B F}

omit [Upstream B] [LawfulUpstream B] [F64 F] in
/-- The stored executions in some order of the map. -/
def storedExecutions (s : AppState B F) : List ExecutionInfo := s.executions.entries.map (·.2)

/-- In every run the stored executions are reports on trades of the books. -/
theorem storedExecutions_reports {ok : AppState B F → Request F → Prop}
    (h : Reaches Start step ok s) : ∃ reports : List ExecutionReport,
      reports.map ExecutionReport.execution = s.storedExecutions ∧
      ∀ r ∈ reports, ∃ e ∈ s.market.tape, e.addr.underlying = r.underlying := by
  have hall : ∀ info ∈ s.storedExecutions, ∃ r : ExecutionReport, r.execution = info ∧
      ∃ e ∈ s.market.tape, e.addr.underlying = r.underlying := by
    intro info hinfo
    obtain ⟨⟨id, info⟩, hmem, rfl⟩ := List.mem_map.mp hinfo
    obtain ⟨e, he, hrec, -⟩ := (reaches_ledger h).executed (AList.mem_lookup_iff.mpr hmem)
    obtain ⟨segment, rfl⟩ := hrec.info
    exact ⟨⟨_, e.addr.underlying, ⟨segment, _, _, rfl⟩,
      fun x hx => absurd hx (Option.not_mem_none x)⟩, rfl, e, he, rfl⟩
  generalize s.storedExecutions = infos at hall
  induction infos with
  | nil => exact ⟨[], rfl, fun r hr => absurd hr List.not_mem_nil⟩
  | cons info infos ih =>
    obtain ⟨reports, hreports, htape⟩ := ih fun i hi => hall i (List.mem_cons_of_mem _ hi)
    obtain ⟨r, rfl, hr⟩ := hall info List.mem_cons_self
    refine ⟨r :: reports, by rw [List.map_cons, hreports], ?_⟩
    intro r' hr'
    rcases List.mem_cons.mp hr' with rfl | hr'
    · exact hr
    · exact htape r' hr'

end AppState
end Stored

section Reference

def march : String → Option ℤ := fun text => if text = "2024-03-01" then some 19783 else none

def executionAt (underlying : String) (timestampMs : ℕ) : ExecutionReport where
  execution := ⟨"1", "2", symbolOf underlying "20240628" 10000 .call, .buy, 100, 3, timestampMs,
    some "1", false, 0, none⟩
  underlying := underlying
  symbol := ⟨_, _, _, rfl⟩
  edge := nofun

/-- Noon of March 1st, and half a second before it ends. -/
def marchNoon : ℕ := 1709294400000
def marchLast : ℕ := 1709337599500

/-- `BTC` lists an execution of `BTCX`, and the last half second of the day is left out. -/
theorem executions_misread :
    ¬ ListsExactly ℚ march [executionAt "BTCX" marchNoon]
      ⟨none, none, some "BTC", none, none, 1000, 0⟩ ∧
    ¬ ListsExactly ℚ march [executionAt "BTC" marchLast]
      ⟨none, some "2024-03-01", some "BTC", none, none, 1000, 0⟩ := by
  constructor
  · intro h
    exact absurd h.length_eq (by decide +kernel)
  · intro h
    exact absurd h.length_eq (by decide +kernel)

/-- At noon, with no other underlying of that prefix about, the listing is exact. -/
theorem list_executions_exact_noon :
    ListsExactly ℚ march [executionAt "BTC" marchNoon, executionAt "ETH" marchNoon]
      ⟨some "2024-03-01", some "2024-03-01", some "BTC", none, some "Buy", 1000, 0⟩ := by
  have hparse : ∀ text day, march text = some day → |day| < 10 ^ 8 := by
    intro text day hday
    unfold march at hday
    split_ifs at hday
    obtain rfl := Option.some.inj hday
    norm_num
  refine (list_executions_exact_iff hparse (by decide) _).mpr ⟨?_, ?_, ?_⟩
  · intro r hr
    apply (ExecutionsQuery.clear_iff hparse).mpr
    revert r
    decide +kernel
  · decide +kernel
  · decide +kernel

end Reference
end OptionChainBackend
