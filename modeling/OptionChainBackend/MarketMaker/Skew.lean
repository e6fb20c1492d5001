import OptionChainBackend.MarketMaker.QuoteSafety

/-!
What the directional skew does to a quote. As long as no step of the quote leaves `i64` and the bid
is not raised to its floor, it moves both legs by the same number of cents.
-/
namespace OptionChainBackend
open F64

theorem truncate_neg (x : ℚ) : truncate (-x) = -truncate x := by
  simp only [truncate_eq, neg_neg]
  omega

theorem truncate_mono {x y : ℚ} (hxy : x ≤ y) : truncate x ≤ truncate y := by
  have hup : ⌊x⌋₊ ≤ ⌊y⌋₊ := Nat.floor_mono hxy
  have hdown : ⌊-y⌋₊ ≤ ⌊-x⌋₊ := Nat.floor_mono (neg_le_neg hxy)
  simp only [truncate_eq]
  omega

namespace MarketMaker

def QuoteInput.skewed (input : QuoteInput ℚ) (skew : ℚ) : QuoteInput ℚ :=
  { input with directionalSkew := skew }

/-- The cents a skew is worth: a part of the half-spread, up for a call and down for a put. -/
def exactShift (half : ℕ) (skew : ℚ) (style : OptionStyle) : ℤ :=
  truncate (half * lean style skew / 2)

section Shift
variable {half : ℕ} {skew skew' : ℚ} {style style' : OptionStyle}

theorem lean_neg (style : OptionStyle) (skew : ℚ) : lean style (-skew) = -lean style skew := by
  cases style <;> simp [lean]

theorem lean_mirror (h : style' ≠ style) : lean style' (-skew) = lean style skew := by
  cases style <;> cases style' <;> simp_all [lean]

theorem exactShift_zero (half : ℕ) (style : OptionStyle) : exactShift half 0 style = 0 := by
  cases style <;> simp [exactShift, lean, truncate]

theorem exactShift_neg (half : ℕ) (skew : ℚ) (style : OptionStyle) :
    exactShift half (-skew) style = -exactShift half skew style := by
  have hneg : (half : ℚ) * lean style (-skew) / 2 = -(half * lean style skew / 2) := by
    rw [lean_neg]
    ring
  unfold exactShift
  rw [hneg, truncate_neg]

theorem exactShift_mirror (half : ℕ) (skew : ℚ) (h : style' ≠ style) :
    exactShift half (-skew) style' = exactShift half skew style := by
  unfold exactShift
  rw [lean_mirror h]

theorem exactShift_call_mono (half : ℕ) (h : skew ≤ skew') :
    exactShift half skew .call ≤ exactShift half skew' .call := by
  have hhalf : (0 : ℚ) ≤ half := Nat.cast_nonneg half
  apply truncate_mono
  simp only [lean]
  nlinarith

theorem exactShift_put_anti (half : ℕ) (h : skew ≤ skew') :
    exactShift half skew' .put ≤ exactShift half skew .put := by
  have hmirror : ∀ s, exactShift half s .put = exactShift half (-s) .call := by
    intro s
    exact (exactShift_mirror half s (by decide)).symm
  rw [hmirror, hmirror]
  exact exactShift_call_mono half (neg_le_neg h)

end Shift

/-- Every intermediate value of the quote is an `i64`, and the floor of the bid does not bind. -/
structure Unclipped (theo half : ℕ) (skew : ℚ) (style : OptionStyle) : Prop where
  spread : theo + half < 2 ^ 63
  ask : theo + half + exactShift half skew style < 2 ^ 63
  bid : 1 ≤ theo - half + exactShift half skew style

section Unclipped
variable {theo half : ℕ} {skew : ℚ} {style : OptionStyle}

theorem Unclipped.shift (h : Unclipped theo half skew style) :
    skewShift half skew style = exactShift half skew style := by
  obtain ⟨hspread, hask, hbid⟩ := h
  have hadj : skewAdjustment half skew =
      max (-2 ^ 63) (min (truncate (half * skew / 2)) (2 ^ 63 - 1)) := by
    show max (-2 ^ 63) (min (truncate ((half : ℚ) * skew * (1 / 2))) (2 ^ 63 - 1)) = _
    have hhalve : (half : ℚ) * skew * (1 / 2) = half * skew / 2 := by ring
    rw [hhalve]
  cases style with
  | call =>
    have hexact : exactShift half skew .call = truncate (half * skew / 2) := rfl
    rw [hexact] at hask hbid ⊢
    show skewAdjustment half skew = _
    omega
  | put =>
    have hexact : exactShift half skew .put = -truncate (half * skew / 2) := by
      have hflip : (half : ℚ) * -skew / 2 = -(half * skew / 2) := by ring
      rw [← truncate_neg, ← hflip]
      rfl
    rw [hexact] at hask hbid ⊢
    show i64 (-skewAdjustment half skew) = _
    rw [hadj, i64_of_mem] <;> omega

/-- The legs of an unclipped quote, in exact cents. -/
theorem Unclipped.cents (h : Unclipped theo half skew style) (hhalf : 1 ≤ half) :
    bidCents theo half (skewShift half skew style) = theo - half + exactShift half skew style ∧
    askCents theo half (skewShift half skew style) = theo + half + exactShift half skew style := by
  rw [h.shift]
  obtain ⟨hspread, hask, hbid⟩ := h
  have htheo : i64 theo = theo := i64_of_mem (by omega) (by omega)
  have hcast : i64 half = half := i64_of_mem (by omega) (by omega)
  have hbidCents : bidCents theo half (exactShift half skew style) =
      theo - half + exactShift half skew style := by
    unfold bidCents
    rw [htheo, hcast, @i64_of_mem ((theo : ℤ) - half) (by omega) (by omega),
      i64_of_mem (by omega) (by omega)]
    omega
  refine ⟨hbidCents, ?_⟩
  unfold askCents
  rw [hbidCents, htheo, hcast, @i64_of_mem ((theo : ℤ) + half) (by omega) (by omega),
    i64_of_mem (by omega) (by omega), i64_of_mem (by omega) (by omega)]
  omega

end Unclipped

section Quotes
variable {self other : Quoter ℚ} {now now' : ℕ} {input input' : QuoteInput ℚ} {theo : ℕ}
  {skew skew' : ℚ}

/-- The quote at this skew is unclipped. -/
def Quoter.Unclipped (self : Quoter ℚ) (theo : ℕ) (input : QuoteInput ℚ) (skew : ℚ) : Prop :=
  MarketMaker.Unclipped theo (self.halfSpreadCents theo input.spreadMultiplier) skew input.style

/-- Quotes of opposite styles with the same spread. -/
structure Mirrors (quoter : Quoter ℚ) (input : QuoteInput ℚ) (other : Quoter ℚ)
    (input' : QuoteInput ℚ) : Prop where
  style : input'.style ≠ input.style
  base : other.baseSpreadBps = quoter.baseSpreadBps
  multiplier : input'.spreadMultiplier = input.spreadMultiplier

theorem halfSpreadCents_pos (self : Quoter ℚ) (theo : ℕ) (m : ℚ) :
    1 ≤ self.halfSpreadCents theo m := by
  have hpos := @halfWidth_pos self m theo
  rw [halfSpreadCents_eq]
  omega

/-- The prices of an unclipped quote. -/
theorem generateQuote_unclipped (h : self.theoCents now input = some theo)
    (hs : self.Unclipped theo input skew) :
    let half := self.halfSpreadCents theo input.spreadMultiplier
    ∃ q, self.generateQuote now (input.skewed skew) = some q ∧
      (q.bidPrice : ℤ) = theo - half + exactShift half skew input.style ∧
      (q.askPrice : ℤ) = theo + half + exactShift half skew input.style := by
  intro half
  have hhalf : 1 ≤ half := halfSpreadCents_pos self theo input.spreadMultiplier
  have htheo : self.theoCents now (input.skewed skew) = some theo := h
  have hs : MarketMaker.Unclipped theo half skew input.style := hs
  obtain ⟨q, hq, -, hbid, hask, -⟩ := generateQuote_of_theo htheo rfl rfl
  obtain ⟨hbidCents, haskCents⟩ := hs.cents hhalf
  obtain ⟨hspread, htop, hbottom⟩ := hs
  have hbidCast := @asU128_cast (theo - half + exactShift half skew input.style) (by omega)
    (by omega)
  have haskCast := @asU128_cast (theo + half + exactShift half skew input.style) (by omega)
    (by omega)
  rw [← hbidCents] at hbidCast
  rw [← haskCents] at haskCast
  exact ⟨q, hq, (congrArg Nat.cast hbid).trans (hbidCast.trans hbidCents),
    (congrArg Nat.cast hask).trans (haskCast.trans haskCents)⟩

/-- The skew is a parallel shift: the width stays, calls rise and puts fall with it, a put is quoted
like a call at the opposite skew, and opposite skews shift by opposite amounts. -/
theorem skew_shifts_parallel (h : self.theoCents now input = some theo) (hle : skew ≤ skew')
    (hs : self.Unclipped theo input skew) (hs' : self.Unclipped theo input skew') :
    ∃ q q', self.generateQuote now (input.skewed skew) = some q ∧
      self.generateQuote now (input.skewed skew') = some q' ∧
      (q.askPrice : ℤ) - q.bidPrice = q'.askPrice - q'.bidPrice ∧
      (input.style = .call → q.bidPrice ≤ q'.bidPrice ∧ q.askPrice ≤ q'.askPrice) ∧
      (input.style = .put → q'.bidPrice ≤ q.bidPrice ∧ q'.askPrice ≤ q.askPrice) ∧
      (∀ {other now' input'}, Mirrors self input other input' →
        other.theoCents now' input' = some theo →
        ∃ m, other.generateQuote now' (input'.skewed (-skew)) = some m ∧
          m.bidPrice = q.bidPrice ∧ m.askPrice = q.askPrice) ∧
      (self.Unclipped theo input 0 → self.Unclipped theo input (-skew) →
        ∃ q₀ r, self.generateQuote now (input.skewed 0) = some q₀ ∧
          self.generateQuote now (input.skewed (-skew)) = some r ∧
          (r.bidPrice : ℤ) - q₀.bidPrice = -(q.bidPrice - q₀.bidPrice) ∧
          (r.askPrice : ℤ) - q₀.askPrice = -(q.askPrice - q₀.askPrice)) := by
  obtain ⟨q, hq, hbid, hask⟩ := generateQuote_unclipped h hs
  obtain ⟨q', hq', hbid', hask'⟩ := generateQuote_unclipped h hs'
  refine ⟨q, q', hq, hq', by omega, fun hcall => ?_, fun hput => ?_, ?_, fun h₀ hneg => ?_⟩
  · have hmono := exactShift_call_mono (self.halfSpreadCents theo input.spreadMultiplier) hle
    rw [hcall] at hbid hask hbid' hask'
    omega
  · have hanti := exactShift_put_anti (self.halfSpreadCents theo input.spreadMultiplier) hle
    rw [hput] at hbid hask hbid' hask'
    omega
  · intro other now' input' hm htheo
    have hhalf : other.halfSpreadCents theo input'.spreadMultiplier =
        self.halfSpreadCents theo input.spreadMultiplier := by
      unfold Quoter.halfSpreadCents
      rw [hm.base, hm.multiplier]
    have hmirror := exactShift_mirror (self.halfSpreadCents theo input.spreadMultiplier) skew
      hm.style
    have hflipped : other.Unclipped theo input' (-skew) := by
      unfold Quoter.Unclipped
      rw [hhalf]
      constructor
      · exact hs.spread
      · rw [hmirror]
        exact hs.ask
      · rw [hmirror]
        exact hs.bid
    obtain ⟨m, hq, hbidm, haskm⟩ := generateQuote_unclipped htheo hflipped
    rw [hhalf, hmirror] at hbidm haskm
    exact ⟨m, hq, by omega, by omega⟩
  · obtain ⟨q₀, hq₀, hbid₀, hask₀⟩ := generateQuote_unclipped h h₀
    obtain ⟨r, hr, hbidr, haskr⟩ := generateQuote_unclipped h hneg
    rw [exactShift_zero] at hbid₀ hask₀
    rw [exactShift_neg] at hbidr haskr
    exact ⟨q₀, r, hq₀, hr, by omega, by omega⟩

end Quotes

section Reference

/-- A put worth 200 dollars, with a half-spread of 100 cents and a skew that moves it by 25. -/
theorem skew_shifts_parallel_putAt :
    ∃ q q', intrinsic.generateQuote 0 ((putAt 30000).skewed 0) = some q ∧
      intrinsic.generateQuote 0 ((putAt 30000).skewed (1 / 2)) = some q' ∧
      (q.askPrice : ℤ) - q.bidPrice = q'.askPrice - q'.bidPrice ∧ q'.askPrice = 20075 := by
  have htheo : intrinsic.theoCents 0 (putAt 30000) = some 20000 := by decide +kernel
  have hclear : ∀ skew ∈ [(0 : ℚ), 1 / 2], intrinsic.Unclipped 20000 (putAt 30000) skew := by
    intro skew hskew
    simp only [List.mem_cons, List.not_mem_nil, or_false] at hskew
    rcases hskew with rfl | rfl <;> constructor <;> decide +kernel
  obtain ⟨q, q', hq, hq', hwidth, -⟩ := skew_shifts_parallel htheo (by norm_num)
    (hclear 0 (by simp)) (hclear (1 / 2) (by simp))
  have hask : (intrinsic.generateQuote 0 ((putAt 30000).skewed (1 / 2))).map QuoteParams.askPrice =
      some 20075 := by decide +kernel
  rw [hq', Option.map_some] at hask
  exact ⟨q, q', hq, hq', hwidth, Option.some.inj hask⟩

end Reference
end MarketMaker
end OptionChainBackend
