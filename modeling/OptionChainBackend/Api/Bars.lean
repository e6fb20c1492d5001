import Mathlib.Data.List.Dedup
import Mathlib.Data.List.Induction
import Mathlib.Data.List.Perm.Subperm
import OptionChainBackend.Api.State

/-!
What a series of bars adds up to. A trade falls into one bar of each interval; as long as the cap
drops no bar, the bars hold every trade together.
-/
namespace OptionChainBackend
open Foundation

theorem saturatingAddU64_eq {a b : ℕ} (h : a + b < 2 ^ 64) : saturatingAddU64 a b = a + b := by
  unfold saturatingAddU64
  omega

theorem saturatingAddU64_le (a b : ℕ) : saturatingAddU64 a b ≤ a + b := min_le_left _ _

namespace OhlcSeries
variable {bars : OhlcSeries} {bar : OhlcBar} {t p q : ℕ}

def volume (bars : OhlcSeries) : ℕ := (bars.map OhlcBar.volume).sum

def trades (bars : OhlcSeries) : ℕ := (bars.map OhlcBar.tradeCount).sum

/-- Ascending, and no two bars of one timestamp. -/
def Ordered (bars : OhlcSeries) : Prop := bars.Pairwise fun b b' => b.timestamp < b'.timestamp

theorem mem_fold (h : bar ∈ fold t p q bars) :
    bar ∈ bars ∨ bar = .new t p q ∨ ∃ old ∈ bars, old.timestamp = t ∧ bar = old.update p q := by
  induction bars with
  | nil => exact .inr (.inl (List.mem_singleton.mp h))
  | cons b bars ih =>
    unfold fold at h
    split_ifs at h with hlt heq
    · rcases List.mem_cons.mp h with h | h
      · exact .inr (.inl h)
      · exact .inl h
    · rcases List.mem_cons.mp h with h | h
      · exact .inr (.inr ⟨b, List.mem_cons_self, heq.symm, h⟩)
      · exact .inl (List.mem_cons_of_mem b h)
    · rcases List.mem_cons.mp h with rfl | h
      · exact .inl List.mem_cons_self
      · rcases ih h with h | h | ⟨old, hold, h⟩
        · exact .inl (List.mem_cons_of_mem b h)
        · exact .inr (.inl h)
        · exact .inr (.inr ⟨old, List.mem_cons_of_mem b hold, h⟩)

theorem Ordered.fold (h : Ordered bars) (t p q : ℕ) : Ordered (fold t p q bars) := by
  induction bars with
  | nil => exact List.pairwise_singleton _ _
  | cons b bars ih =>
    obtain ⟨hb, hbars⟩ := List.pairwise_cons.mp h
    unfold OhlcSeries.fold
    split_ifs with hlt heq
    · apply List.pairwise_cons.mpr ⟨?_, h⟩
      intro b' hb'
      show t < b'.timestamp
      rcases List.mem_cons.mp hb' with rfl | hb'
      · exact hlt
      · exact hlt.trans (hb b' hb')
    · exact List.pairwise_cons.mpr ⟨hb, hbars⟩
    · apply List.pairwise_cons.mpr ⟨?_, ih hbars⟩
      intro b' hb'
      rcases mem_fold hb' with hb' | rfl | ⟨old, hold, -, rfl⟩
      · exact hb b' hb'
      · show b.timestamp < t
        omega
      · exact hb old hold

theorem volume_fold (h : volume bars + q < 2 ^ 64) :
    volume (fold t p q bars) = volume bars + q := by
  induction bars with
  | nil => simp [fold, volume, OhlcBar.new]
  | cons b bars ih =>
    simp only [volume, List.map_cons, List.sum_cons] at h ih ⊢
    unfold fold
    split_ifs
    · simp only [OhlcBar.new, List.map_cons, List.sum_cons]
      omega
    · have hsum : (b.update p q).volume = b.volume + q := saturatingAddU64_eq (by omega)
      simp only [List.map_cons, List.sum_cons, hsum]
      omega
    · simp only [List.map_cons, List.sum_cons, ih (by omega)]
      omega

theorem trades_fold (h : ∀ b ∈ bars, b.timestamp = t → b.tradeCount + 1 < 2 ^ 64) :
    trades (fold t p q bars) = trades bars + 1 := by
  induction bars with
  | nil => simp [fold, trades, OhlcBar.new]
  | cons b bars ih =>
    simp only [trades, List.map_cons, List.sum_cons] at ih ⊢
    unfold fold
    split_ifs with hlt heq
    · simp only [OhlcBar.new, List.map_cons, List.sum_cons]
      omega
    · have hsum : (b.update p q).tradeCount = b.tradeCount + 1 :=
        saturatingAddU64_eq (h b List.mem_cons_self heq.symm)
      simp only [List.map_cons, List.sum_cons, hsum]
      omega
    · simp only [List.map_cons, List.sum_cons]
      rw [ih fun b' hb' => h b' (List.mem_cons_of_mem b hb')]
      omega

theorem retain_eq (h : bars.length ≤ maxBarsPerSeries) : retain bars = bars := by
  simp [retain, Nat.sub_eq_zero_of_le h]

theorem retain_sublist (bars : OhlcSeries) : List.Sublist (retain bars) bars :=
  List.drop_sublist _ _

end OhlcSeries

section Series
variable {i : OhlcInterval} {fills : List ExecutedFill} {fill : ExecutedFill} {bars : OhlcSeries}

/-- The timestamp of the bar a fill falls into. -/
def barTime (i : OhlcInterval) (fill : ExecutedFill) : ℕ :=
  i.floorTimestamp (fill.timestampMs / 1000)

/-- The bars the fills fall into. -/
def barTimes (i : OhlcInterval) (fills : List ExecutedFill) : List ℕ :=
  (fills.map (barTime i)).dedup

/-- How many of the fills fall into the bar of `t`. -/
def fillsInBar (i : OhlcInterval) (fills : List ExecutedFill) (t : ℕ) : ℕ :=
  (fills.map (barTime i)).count t

theorem fillsInBar_concat (t : ℕ) : fillsInBar i (fills ++ [fill]) t =
    fillsInBar i fills t + if barTime i fill = t then 1 else 0 := by
  simp [fillsInBar, List.count_singleton]

/-- The fills folded in, one after the other. -/
def seriesOf (i : OhlcInterval) (fills : List ExecutedFill) : OhlcSeries :=
  fills.foldl (fun bars fill => .retain (.fold (barTime i fill) fill.price fill.quantity bars)) []

theorem seriesOf_concat (i : OhlcInterval) (fills : List ExecutedFill) (fill : ExecutedFill) :
    seriesOf i (fills ++ [fill]) =
      .retain (.fold (barTime i fill) fill.price fill.quantity (seriesOf i fills)) := by
  simp [seriesOf]

/-- Every bar is one the fills fall into, and counts no more of them than there are. -/
structure Tallied (i : OhlcInterval) (fills : List ExecutedFill) (bars : OhlcSeries) : Prop where
  ordered : bars.Ordered
  time : ∀ bar ∈ bars, bar.timestamp ∈ barTimes i fills
  count : ∀ bar ∈ bars, bar.tradeCount ≤ fillsInBar i fills bar.timestamp

theorem Tallied.fold (h : Tallied i fills bars) (fill : ExecutedFill) :
    Tallied i (fills ++ [fill])
      (.fold (barTime i fill) fill.price fill.quantity bars) where
  ordered := h.ordered.fold _ _ _
  time bar hbar := by
    simp only [barTimes, List.mem_dedup, List.map_append, List.mem_append]
    have hold : ∀ old ∈ bars, old.timestamp ∈ fills.map (barTime i) := by
      intro old ho
      simpa [barTimes] using h.time old ho
    rcases OhlcSeries.mem_fold hbar with hbar | rfl | ⟨old, ho, -, rfl⟩
    · exact .inl (hold bar hbar)
    · exact .inr List.mem_cons_self
    · exact .inl (hold old ho)
  count bar hbar := by
    rw [fillsInBar_concat]
    rcases OhlcSeries.mem_fold hbar with hbar | rfl | ⟨old, ho, ht, rfl⟩
    · exact (h.count bar hbar).trans (Nat.le_add_right _ _)
    · simp [OhlcBar.new]
    · have hcount : old.tradeCount ≤ fillsInBar i fills old.timestamp := h.count old ho
      have hle : saturatingAddU64 old.tradeCount 1 ≤ old.tradeCount + 1 :=
        saturatingAddU64_le _ _
      show saturatingAddU64 old.tradeCount 1 ≤ fillsInBar i fills old.timestamp +
        if barTime i fill = old.timestamp then 1 else 0
      rw [if_pos ht.symm]
      omega

theorem Tallied.retain (h : Tallied i fills bars) : Tallied i fills bars.retain where
  ordered := h.ordered.sublist (OhlcSeries.retain_sublist bars)
  time bar hbar := h.time bar ((OhlcSeries.retain_sublist bars).subset hbar)
  count bar hbar := h.count bar ((OhlcSeries.retain_sublist bars).subset hbar)

theorem seriesOf_tallied (i : OhlcInterval) (fills : List ExecutedFill) :
    Tallied i fills (seriesOf i fills) := by
  induction fills using List.reverseRecOn with
  | nil => exact ⟨List.Pairwise.nil, by simp [seriesOf], by simp [seriesOf]⟩
  | append_singleton fills fill ih =>
    rw [seriesOf_concat]
    exact (ih.fold fill).retain

/-- There are no more bars than the fills fall into. -/
theorem Tallied.length_le (h : Tallied i fills bars) : bars.length ≤ (barTimes i fills).length := by
  have hnodup : (bars.map OhlcBar.timestamp).Nodup :=
    List.pairwise_map.mpr (h.ordered.imp fun hlt => hlt.ne)
  have hsubset : bars.map OhlcBar.timestamp ⊆ barTimes i fills := by
    intro t ht
    obtain ⟨bar, hbar, rfl⟩ := List.mem_map.mp ht
    exact h.time bar hbar
  simpa using (List.Nodup.subperm hnodup hsubset).length_le

theorem barTimes_length_le (i : OhlcInterval) (fills : List ExecutedFill) (fill : ExecutedFill) :
    (barTimes i fills).length ≤ (barTimes i (fills ++ [fill])).length := by
  have hsubset : barTimes i fills ⊆ barTimes i (fills ++ [fill]) := by
    intro t ht
    simp only [barTimes, List.mem_dedup, List.map_append, List.mem_append] at ht ⊢
    exact .inl ht
  exact (List.Nodup.subperm (List.nodup_dedup _) hsubset).length_le

/-- No bar leaves while the fills fall into no more than the cap. -/
theorem seriesOf_concat_eq (hcap : (barTimes i (fills ++ [fill])).length ≤ maxBarsPerSeries) :
    seriesOf i (fills ++ [fill]) =
      .fold (barTime i fill) fill.price fill.quantity (seriesOf i fills) := by
  have htallied : Tallied i (fills ++ [fill])
      (.fold (barTime i fill) fill.price fill.quantity (seriesOf i fills)) :=
    (seriesOf_tallied i fills).fold fill
  rw [seriesOf_concat, OhlcSeries.retain_eq (htallied.length_le.trans hcap)]

theorem seriesOf_volume (hcap : (barTimes i fills).length ≤ maxBarsPerSeries)
    (hq : (fills.map ExecutedFill.quantity).sum < 2 ^ 64) :
    (seriesOf i fills).volume = (fills.map ExecutedFill.quantity).sum := by
  induction fills using List.reverseRecOn with
  | nil => rfl
  | append_singleton fills fill ih =>
    simp only [List.map_append, List.sum_append, List.map_cons, List.map_nil, List.sum_cons,
      List.sum_nil, add_zero] at hq ⊢
    have hvolume := ih ((barTimes_length_le i fills fill).trans hcap) (by omega)
    rw [seriesOf_concat_eq hcap, OhlcSeries.volume_fold (by omega), hvolume]

theorem seriesOf_trades (hcap : (barTimes i fills).length ≤ maxBarsPerSeries)
    (hcount : ∀ t, fillsInBar i fills t < 2 ^ 64) : (seriesOf i fills).trades = fills.length := by
  induction fills using List.reverseRecOn with
  | nil => rfl
  | append_singleton fills fill ih =>
    have htrades : (seriesOf i fills).trades = fills.length := by
      apply ih ((barTimes_length_le i fills fill).trans hcap)
      intro t
      have ht := hcount t
      rw [fillsInBar_concat] at ht
      omega
    rw [seriesOf_concat_eq hcap, OhlcSeries.trades_fold, htrades]
    · simp
    · intro bar hbar ht
      have hbound := (seriesOf_tallied i fills).count bar hbar
      have hlt := hcount bar.timestamp
      rw [fillsInBar_concat, if_pos ht.symm] at hlt
      omega

/-- No bar counts beyond `u64`. -/
theorem seriesOf_trades_le (i : OhlcInterval) (fills : List ExecutedFill) :
    (seriesOf i fills).trades ≤ (barTimes i fills).length * (2 ^ 64 - 1) := by
  have hcount : ∀ bar ∈ seriesOf i fills, bar.tradeCount ≤ 2 ^ 64 - 1 := by
    induction fills using List.reverseRecOn with
    | nil => simp [seriesOf]
    | append_singleton fills fill ih =>
      intro bar hbar
      rw [seriesOf_concat] at hbar
      rcases OhlcSeries.mem_fold ((OhlcSeries.retain_sublist _).subset hbar) with
        hbar | rfl | ⟨old, -, -, rfl⟩
      · exact ih bar hbar
      · show 1 ≤ 2 ^ 64 - 1
        omega
      · exact min_le_right _ _
  have hsum : (seriesOf i fills).trades ≤ (seriesOf i fills).length * (2 ^ 64 - 1) := by
    have hmap : ∀ n ∈ (seriesOf i fills).map OhlcBar.tradeCount, n ≤ 2 ^ 64 - 1 := by
      intro n hn
      obtain ⟨bar, hbar, rfl⟩ := List.mem_map.mp hn
      exact hcount bar hbar
    simpa [OhlcSeries.trades] using List.sum_le_card_nsmul _ _ hmap
  exact hsum.trans (Nat.mul_le_mul_right _ (seriesOf_tallied i fills).length_le)

/-- Fills with a quantity are no more than what they add up to. -/
theorem fillsInBar_le (hpos : ∀ fill ∈ fills, 0 < fill.quantity) (t : ℕ) :
    fillsInBar i fills t ≤ (fills.map ExecutedFill.quantity).sum := by
  have hlength : fills.length ≤ (fills.map ExecutedFill.quantity).sum := by
    induction fills with
    | nil => simp
    | cons fill fills ih =>
      have hone := hpos fill List.mem_cons_self
      have hrest := ih fun f hf => hpos f (List.mem_cons_of_mem fill hf)
      simp only [List.length_cons, List.map_cons, List.sum_cons]
      omega
  exact (List.count_le_length.trans (by simp)).trans hlength

end Series

namespace OhlcAggregator
variable {self : OhlcAggregator} {symbol key : String} {i : OhlcInterval}

theorem recordTrade_lookup (timestampMs price quantity : ℕ) :
    (self.recordTrade symbol timestampMs price quantity).lookup (key, i) =
      if key = symbol then
        some (.retain (.fold (i.floorTimestamp (timestampMs / 1000)) price quantity
          ((self.lookup (symbol, i)).getD [])))
      else self.lookup (key, i) := by
  by_cases hk : key = symbol
  · subst hk
    cases i <;> simp [recordTrade, OhlcInterval.all, updateBar]
  · simp [recordTrade, OhlcInterval.all, updateBar, hk]

end OhlcAggregator
end OptionChainBackend
