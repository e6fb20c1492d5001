import OptionChainBackend.Api.Positions
import OptionChainBackend.Foundation.Potential

/-!
The money of a position over any row of fills. Realized P&L, what the position is worth at a mark
and what the fills were worth at that mark differ only by what the average price was rounded down
when a fill was added.
-/
namespace OptionChainBackend
open Foundation

/-- A fill as `PositionInfo::update` receives it. -/
structure SignedFill where
  quantity : ℤ
  price : ℕ
  timestampMs : ℕ
  deriving DecidableEq, Repr

namespace PositionInfo
variable {pos : PositionInfo} {f : SignedFill} {fs : List SignedFill}

def fill (pos : PositionInfo) (f : SignedFill) : PositionInfo :=
  (pos.update f.quantity f.price f.timestampMs).1

/-- The first fill goes through `new`. -/
def opening (symbol underlying : String) (f : SignedFill) : PositionInfo :=
  .new symbol underlying f.quantity f.price f.timestampMs

/-- No value of the update saturates. -/
structure Unsaturated (pos : PositionInfo) (f : SignedFill) : Prop where
  quantity : i64Min ≤ pos.quantity + f.quantity ∧ pos.quantity + f.quantity ≤ i64Max
  cost : pos.Adds f.quantity → pos.cost f.quantity f.price < 2 ^ 128
  prices : ¬ pos.Adds f.quantity → f.price < 2 ^ 127 ∧ pos.averagePrice < 2 ^ 127
  realized : i64Min ≤ pos.exactRealized f.quantity f.price ∧
    pos.exactRealized f.quantity f.price ≤ i64Max
  total : i64Min ≤ pos.realizedPnl + pos.exactRealized f.quantity f.price ∧
    pos.realizedPnl + pos.exactRealized f.quantity f.price ≤ i64Max

section Step

/-- The fill adds to an open position on the same side. -/
def AddsTo (long : Bool) (pos : PositionInfo) (f : SignedFill) : Prop :=
  if long then 0 < pos.quantity ∧ 0 < f.quantity else pos.quantity < 0 ∧ f.quantity < 0

instance (long : Bool) : Decidable (AddsTo long pos f) := by
  unfold AddsTo
  infer_instance

/-- What the average price of the position loses to rounding when the fill is added. -/
def lost (pos : PositionInfo) (f : SignedFill) : ℕ :=
  pos.cost f.quantity f.price % (pos.quantity.natAbs + f.quantity.natAbs)

/-- The change of the balance by rounding: in favour of a long, against a short. -/
def rounding (pos : PositionInfo) (f : SignedFill) : ℤ :=
  if AddsTo true pos f then lost pos f else if AddsTo false pos f then -lost pos f else 0

/-- Realized P&L less what the position cost. -/
def balance (pos : PositionInfo) : ℤ := pos.realizedPnl - pos.quantity * pos.averagePrice

theorem adds_iff : pos.Adds f.quantity ↔
    AddsTo true pos f ∨ AddsTo false pos f ∨ pos.quantity = 0 := by
  simp [Adds, AddsTo, sameDirection, or_assoc]

theorem fill_quantity (h : pos.Unsaturated f) :
    (pos.fill f).quantity = pos.quantity + f.quantity := by
  unfold fill
  rw [update_quantity]
  exact clampI64_of_mem h.quantity.1 h.quantity.2

/-- The update returns the exact P&L of the fill. -/
theorem update_returned (h : pos.Unsaturated f) :
    (pos.update f.quantity f.price f.timestampMs).2 = pos.exactRealized f.quantity f.price := by
  by_cases ha : pos.Adds f.quantity
  · rw [update_adds ha, exactRealized_adds ha]
  · obtain ⟨hp, havg⟩ := h.prices ha
    rw [update_closes ha, realizedOn_of_narrow ha hp havg]
    exact clampI64_of_mem h.realized.1 h.realized.2

theorem fill_realizedPnl (h : pos.Unsaturated f) :
    (pos.fill f).realizedPnl = pos.realizedPnl + pos.exactRealized f.quantity f.price := by
  unfold fill
  by_cases ha : pos.Adds f.quantity
  · rw [update_adds ha, exactRealized_adds ha, Int.add_zero]
  · have hret := update_returned h
    rw [update_closes ha] at hret ⊢
    dsimp only at hret ⊢
    rw [hret]
    exact clampI64_of_mem h.total.1 h.total.2

theorem fill_average_adds (h : pos.Unsaturated f) (ha : pos.Adds f.quantity) :
    (pos.fill f).averagePrice = if pos.quantity.natAbs + f.quantity.natAbs = 0 then
      pos.averagePrice
    else pos.cost f.quantity f.price / (pos.quantity.natAbs + f.quantity.natAbs) := by
  unfold fill
  rw [update_adds ha]
  dsimp only
  unfold weightedMean
  rw [if_pos (h.cost ha)]

theorem fill_average_closes (h : pos.Unsaturated f) (ha : ¬ pos.Adds f.quantity) :
    (pos.fill f).averagePrice =
      if pos.quantity.natAbs < f.quantity.natAbs then f.price else pos.averagePrice := by
  unfold fill
  rw [update_closes ha]
  dsimp only
  rw [clampI64_of_mem h.quantity.1 h.quantity.2]
  simp only [flips_iff ha]

/-- The position after an added fill costs what both cost, less what rounding loses. -/
theorem average_mul (h : pos.Unsaturated f) (ha : pos.Adds f.quantity) :
    ((pos.fill f).averagePrice * (pos.quantity.natAbs + f.quantity.natAbs) : ℕ) + pos.lost f =
      pos.cost f.quantity f.price := by
  rw [fill_average_adds h ha]
  unfold lost
  split_ifs with hz
  · have hzero : pos.cost f.quantity f.price = 0 := by
      unfold cost
      have hq : pos.quantity.natAbs = 0 := by omega
      have hf : f.quantity.natAbs = 0 := by omega
      rw [hq, hf]
      omega
    rw [hz, hzero, Nat.mul_zero, Nat.zero_mod]
  · exact Nat.div_add_mod' _ _

theorem rounding_long (hq : 0 < pos.quantity) (hf : 0 < f.quantity) :
    pos.rounding f = pos.lost f := if_pos ⟨hq, hf⟩

theorem rounding_short (hq : pos.quantity < 0) (hf : f.quantity < 0) :
    pos.rounding f = -pos.lost f := by
  have hlong : ¬ AddsTo true pos f := fun hl => lt_asymm hq hl.1
  unfold rounding
  rw [if_neg hlong, if_pos ⟨hq, hf⟩]

theorem rounding_flat (hq : pos.quantity = 0) : pos.rounding f = 0 := by
  have hlong : ¬ AddsTo true pos f := fun hl => lt_irrefl 0 (hq ▸ hl.1)
  have hshort : ¬ AddsTo false pos f := fun hs => lt_irrefl 0 (hq ▸ hs.1)
  unfold rounding
  rw [if_neg hlong, if_neg hshort]

theorem rounding_closes (ha : ¬ pos.Adds f.quantity) : pos.rounding f = 0 := by
  have hno := not_or.mp fun h => ha (adds_iff.mpr (or_assoc.mp (.inl h)))
  unfold rounding
  rw [if_neg hno.1, if_neg hno.2]

/-- Nothing is lost when a position is opened. -/
theorem lost_flat (hq : pos.quantity = 0) : pos.lost f = 0 := by
  unfold lost cost
  rw [hq]
  simp

theorem fill_balance_adds (h : pos.Unsaturated f) (ha : pos.Adds f.quantity) :
    (pos.fill f).balance = pos.balance + (pos.rounding f - f.quantity * f.price) := by
  have hmul := average_mul h ha
  unfold cost at hmul
  zify at hmul
  unfold balance
  rw [fill_quantity h, fill_realizedPnl h, exactRealized_adds ha, Int.add_zero]
  rcases adds_iff.mp ha with ⟨hpos, hf⟩ | ⟨hneg, hf⟩ | hflat
  · rw [abs_of_pos hpos, abs_of_pos hf] at hmul
    rw [rounding_long hpos hf]
    linarith
  · rw [abs_of_neg hneg, abs_of_neg hf] at hmul
    rw [rounding_short hneg hf]
    linarith
  · rw [lost_flat hflat, hflat, abs_zero] at hmul
    rw [rounding_flat hflat, hflat]
    rcases le_total 0 f.quantity with hf | hf
    · rw [abs_of_nonneg hf] at hmul
      push_cast at hmul
      linarith
    · rw [abs_of_nonpos hf] at hmul
      push_cast at hmul
      linarith

/-- Closing is exact, also when the fill goes on to open the other side. -/
theorem fill_balance_closes (h : pos.Unsaturated f) (ha : ¬ pos.Adds f.quantity) :
    (pos.fill f).balance = pos.balance + (pos.rounding f - f.quantity * f.price) := by
  have hagainst := not_adds_iff.mp ha
  unfold balance
  rw [fill_quantity h, fill_realizedPnl h, fill_average_closes h ha, rounding_closes ha]
  unfold exactRealized
  rw [if_neg ha]
  by_cases hflip : pos.quantity.natAbs < f.quantity.natAbs
  · have hclosed : (min f.quantity.natAbs pos.quantity.natAbs : ℕ) * pos.quantity.sign =
        pos.quantity := by
      rw [min_eq_right hflip.le, Int.mul_comm, Int.sign_mul_natAbs]
    rw [if_pos hflip, Int.mul_assoc, hclosed]
    linarith
  · have hclosed : (min f.quantity.natAbs pos.quantity.natAbs : ℕ) * pos.quantity.sign =
        -f.quantity := by
      rw [min_eq_left (not_lt.mp hflip)]
      rcases lt_or_gt_of_ne hagainst.2.2 with hshort | hlong
      · rw [Int.sign_eq_neg_one_of_neg hshort]
        omega
      · rw [Int.sign_eq_one_of_pos hlong]
        omega
    rw [if_neg hflip, Int.mul_assoc, hclosed]
    linarith

/-- A fill moves the balance by its own price, and by rounding. -/
theorem fill_balance (h : pos.Unsaturated f) :
    (pos.fill f).balance = pos.balance + (pos.rounding f - f.quantity * f.price) := by
  by_cases ha : pos.Adds f.quantity
  · exact fill_balance_adds h ha
  · exact fill_balance_closes h ha

end Step

section Run
variable {symbol underlying : String}

/-- The position after a row of fills. -/
def ofFills (symbol underlying : String) (f : SignedFill) (fs : List SignedFill) : PositionInfo :=
  fs.foldl fill (opening symbol underlying f)

/-- The most that rounding can move: one less than the position, for each fill added to it. -/
def slack (long : Bool) (pos : PositionInfo) (f : SignedFill) : ℤ :=
  if AddsTo long pos f then (pos.fill f).quantity.natAbs - 1 else 0

/-- Realized P&L and the worth of the position at a mark, less the worth of the fills. -/
def discrepancy (pos : PositionInfo) (fs : List SignedFill) (mark : ℤ) : ℤ :=
  pos.realizedPnl + pos.quantity * (mark - pos.averagePrice) -
    (fs.map fun f => f.quantity * (mark - f.price)).sum

/-- Every weighted average along the run divides evenly. -/
def EvenMeans (pos : PositionInfo) (fs : List SignedFill) : Prop :=
  Allowed fill (fun pos f => pos.Adds f.quantity →
    pos.quantity.natAbs + f.quantity.natAbs ∣ pos.cost f.quantity f.price) pos fs

/-- The money of the fills is accounted for, up to rounding. -/
structure Accounted (symbol underlying : String) (f : SignedFill) (fs : List SignedFill) :
    Prop where
  quantity : (ofFills symbol underlying f fs).quantity =
    ((f :: fs).map SignedFill.quantity).sum
  markFree : ∀ mark mark', (ofFills symbol underlying f fs).discrepancy (f :: fs) mark =
    (ofFills symbol underlying f fs).discrepancy (f :: fs) mark'
  lower : ∀ mark, -sumAlong fill (slack false) (opening symbol underlying f) fs ≤
    (ofFills symbol underlying f fs).discrepancy (f :: fs) mark
  upper : ∀ mark, (ofFills symbol underlying f fs).discrepancy (f :: fs) mark ≤
    sumAlong fill (slack true) (opening symbol underlying f) fs
  even : EvenMeans (opening symbol underlying f) fs →
    ∀ mark, (ofFills symbol underlying f fs).discrepancy (f :: fs) mark = 0
  returned : Allowed fill (fun pos f => (pos.update f.quantity f.price f.timestampMs).2 =
    (pos.fill f).realizedPnl - pos.realizedPnl) (opening symbol underlying f) fs

variable {start : PositionInfo}

theorem foldl_quantity (h : Allowed fill Unsaturated start fs) :
    (fs.foldl fill start).quantity = start.quantity + (fs.map SignedFill.quantity).sum := by
  rw [potential_foldl quantity h fun _ _ hu => fill_quantity hu, sumAlong_map]

theorem foldl_balance (h : Allowed fill Unsaturated start fs) :
    (fs.foldl fill start).balance = start.balance +
      (sumAlong fill rounding start fs - (fs.map fun f => f.quantity * (f.price : ℤ)).sum) := by
  rw [potential_foldl balance h fun _ _ hu => fill_balance hu, sumAlong_sub, sumAlong_map]

theorem sum_marked (fs : List SignedFill) (mark : ℤ) :
    (fs.map fun f => f.quantity * (mark - f.price)).sum =
      (fs.map SignedFill.quantity).sum * mark - (fs.map fun f => f.quantity * (f.price : ℤ)).sum := by
  induction fs with
  | nil => simp
  | cons f fs ih =>
    simp only [List.map_cons, List.sum_cons, ih]
    linarith

/-- At every mark the discrepancy is what rounding adds up to. -/
theorem discrepancy_eq (h : Allowed fill Unsaturated (opening symbol underlying f) fs)
    (mark : ℤ) : (ofFills symbol underlying f fs).discrepancy (f :: fs) mark =
      sumAlong fill rounding (opening symbol underlying f) fs := by
  have hquantity := foldl_quantity h
  have hbalance := foldl_balance h
  have hstart : (opening symbol underlying f).balance = -(f.quantity * (f.price : ℤ)) := by
    show (0 : ℤ) - f.quantity * (f.price : ℤ) = _
    rw [Int.zero_sub]
  have hfirst : (opening symbol underlying f).quantity = f.quantity := rfl
  rw [hstart] at hbalance
  rw [hfirst] at hquantity
  unfold balance at hbalance
  unfold discrepancy ofFills
  rw [sum_marked, List.map_cons, List.map_cons, List.sum_cons, List.sum_cons, ← hquantity]
  linarith

theorem natAbs_fill (h : pos.Unsaturated f) (long : Bool) (ha : AddsTo long pos f) :
    (pos.fill f).quantity.natAbs = pos.quantity.natAbs + f.quantity.natAbs := by
  rw [fill_quantity h]
  cases long with
  | true =>
    obtain ⟨hq, hf⟩ : 0 < pos.quantity ∧ 0 < f.quantity := ha
    omega
  | false =>
    obtain ⟨hq, hf⟩ : pos.quantity < 0 ∧ f.quantity < 0 := ha
    omega

/-- Rounding loses less than one for each unit of the position. -/
theorem lost_le_slack (h : pos.Unsaturated f) (long : Bool) (ha : AddsTo long pos f) :
    (pos.lost f : ℤ) ≤ slack long pos f := by
  have hsize := natAbs_fill h long ha
  have hpos : 0 < pos.quantity.natAbs + f.quantity.natAbs := by
    cases long with
    | true =>
      obtain ⟨hq, hf⟩ : 0 < pos.quantity ∧ 0 < f.quantity := ha
      omega
    | false =>
      obtain ⟨hq, hf⟩ : pos.quantity < 0 ∧ f.quantity < 0 := ha
      omega
  have hlt : pos.lost f < pos.quantity.natAbs + f.quantity.natAbs := Nat.mod_lt _ hpos
  unfold slack
  rw [if_pos ha, hsize]
  omega

theorem rounding_bounds (h : pos.Unsaturated f) :
    -slack false pos f ≤ pos.rounding f ∧ pos.rounding f ≤ slack true pos f := by
  by_cases hlong : AddsTo true pos f
  · have hle := lost_le_slack h true hlong
    have hshort : ¬ AddsTo false pos f := fun hs => lt_asymm hlong.1 hs.1
    have hzero : slack false pos f = 0 := if_neg hshort
    rw [rounding_long hlong.1 hlong.2, hzero]
    omega
  · have hzero : slack true pos f = 0 := if_neg hlong
    by_cases hshort : AddsTo false pos f
    · have hle := lost_le_slack h false hshort
      rw [rounding_short hshort.1 hshort.2, hzero]
      omega
    · have hnone : slack false pos f = 0 := if_neg hshort
      unfold rounding
      rw [if_neg hlong, if_neg hshort, hzero, hnone]
      omega

/-- Nothing is lost when the mean divides evenly. -/
theorem rounding_even (h : pos.Adds f.quantity →
    pos.quantity.natAbs + f.quantity.natAbs ∣ pos.cost f.quantity f.price) :
    pos.rounding f = 0 := by
  by_cases ha : pos.Adds f.quantity
  · have hzero : pos.lost f = 0 := Nat.mod_eq_zero_of_dvd (h ha)
    unfold rounding
    rw [hzero]
    split_ifs <;> rfl
  · exact rounding_closes ha

/-- The P&L identity, for every row of fills in which nothing saturates. -/
theorem pnl_accounted (symbol underlying : String) (f : SignedFill) (fs : List SignedFill)
    (h : Allowed fill Unsaturated (opening symbol underlying f) fs) :
    Accounted symbol underlying f fs where
  quantity := by
    rw [List.map_cons, List.sum_cons]
    exact foldl_quantity h
  markFree mark mark' := (discrepancy_eq h mark).trans (discrepancy_eq h mark').symm
  lower mark := by
    rw [discrepancy_eq h, ← sumAlong_neg]
    exact sumAlong_le h fun _ _ hu => (rounding_bounds hu).1
  upper mark := by
    rw [discrepancy_eq h]
    exact sumAlong_le h fun _ _ hu => (rounding_bounds hu).2
  even heven mark := by
    rw [discrepancy_eq h]
    exact sumAlong_eq_zero heven fun _ _ hdvd => rounding_even hdvd
  returned := h.imp fun pos f hu => by
    rw [update_returned hu, fill_realizedPnl hu]
    omega

/-- Three at 101 and two at 104 bought, four sold at 110, three more sold at 90. -/
theorem pnl_accounted_flip : Accounted "BTC-30-10000-C" "BTC" ⟨3, 101, 0⟩
    [⟨2, 104, 1⟩, ⟨-4, 110, 2⟩, ⟨-3, 90, 3⟩] := by
  apply pnl_accounted
  refine ⟨?_, ?_, ?_, trivial⟩ <;> constructor <;> decide +kernel

end Run
end PositionInfo
end OptionChainBackend
