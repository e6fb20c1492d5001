import Mathlib.Tactic.Linarith
import Mathlib.Tactic.NormNum
import Mathlib.Tactic.Ring
import OptionChainBackend.Simulation.Config

/-!
The strikes of a validated asset, with `f64` read as exact rationals. They ascend strictly; what
validation does not see is a strike that rounds to no cents, and a spacing beyond the price cap.
-/
namespace OptionChainBackend
open Foundation MarketMaker

section Cents
variable {v w : ℚ} {cents : ℕ}

theorem within_rat {lo hi : ℚ} : F64.within v lo hi = true ↔ lo ≤ v ∧ v ≤ hi := by
  simp [F64.within, F64.isFinite, F64.lt]

theorem truncate_nonneg {x : ℚ} (h : 0 ≤ x) : truncate x = ⌊x⌋ := if_pos h

/-- A price in range is rounded to the nearest cent, half a cent upwards. -/
theorem centsOf_rat : centsOf v = some cents ↔
    0 ≤ v ∧ v ≤ 1000000000000 ∧ (cents : ℤ) = ⌊v * 100 + 1 / 2⌋ := by
  have hrange : F64.within v (F64.ofRat 0) maxPriceDollars = true ↔
      0 ≤ v ∧ v ≤ 1000000000000 := within_rat
  unfold centsOf
  by_cases hin : 0 ≤ v ∧ v ≤ 1000000000000
  · have hscaled : 0 ≤ v * 100 := by linarith
    have hnonneg : (0 : ℤ) ≤ ⌊v * 100 + 1 / 2⌋ := Int.floor_nonneg.mpr (by linarith)
    have hfloor : ⌊v * 100 + 1 / 2⌋ ≤ 100000000000000 := by
      rw [← Int.lt_add_one_iff, Int.floor_lt]
      push_cast
      linarith
    have hround : F64.toU64 (F64.round (F64.mul v (F64.ofRat 100))) =
        min (⌊v * 100 + 1 / 2⌋).toNat (2 ^ 64 - 1) := by
      change min (truncate (if 0 ≤ v * 100 then ((⌊v * 100 + 1 / 2⌋ : ℤ) : ℚ) else _)).toNat _ = _
      rw [if_pos hscaled, truncate_nonneg (by exact_mod_cast hnonneg), Int.floor_intCast]
    rw [if_pos (hrange.mpr hin), hround]
    simp only [Option.some.injEq, hin, true_and]
    omega
  · rw [if_neg fun h => hin (hrange.mp h)]
    constructor
    · nofun
    · exact fun h => absurd ⟨h.1, h.2.1⟩ hin

theorem centsOf_isSome : (centsOf v).isSome ↔ 0 ≤ v ∧ v ≤ 1000000000000 := by
  constructor
  · intro h
    obtain ⟨cents, hc⟩ := Option.isSome_iff_exists.mp h
    obtain ⟨h0, h1, -⟩ := centsOf_rat.mp hc
    exact ⟨h0, h1⟩
  · intro h
    have hnonneg : (0 : ℤ) ≤ ⌊v * 100 + 1 / 2⌋ := Int.floor_nonneg.mpr (by linarith)
    apply Option.isSome_iff_exists.mpr
    refine ⟨(⌊v * 100 + 1 / 2⌋).toNat, centsOf_rat.mpr ⟨h.1, h.2, ?_⟩⟩
    omega

theorem centsOf_mono {c d : ℕ} (hvw : v ≤ w) (hc : centsOf v = some c) (hd : centsOf w = some d) :
    c ≤ d := by
  have hle : ⌊v * 100 + 1 / 2⌋ ≤ ⌊w * 100 + 1 / 2⌋ := Int.floor_le_floor (by linarith)
  have h := (centsOf_rat.mp hc).2.2
  have h' := (centsOf_rat.mp hd).2.2
  omega

/-- Half a cent is the least that rounds to a cent. -/
theorem centsOf_pos (hc : centsOf v = some cents) : 0 < cents ↔ 1 / 200 ≤ v := by
  have h := (centsOf_rat.mp hc).2.2
  have hone : 0 < cents ↔ (1 : ℤ) ≤ ⌊v * 100 + 1 / 2⌋ := by omega
  rw [hone, Int.le_floor]
  push_cast
  constructor <;>
    · intro h
      linarith

end Cents

namespace AssetConfig
variable {asset : AssetConfig ℚ} {i j cents : ℕ} {display : ℚ → String}

/-- What validation establishes of an asset, as far as its strikes go. -/
structure Validated (asset : AssetConfig ℚ) : Prop where
  price_pos : 0 < asset.initialPrice
  price_le : asset.initialPrice ≤ 1000000000000
  strikes_pos : 0 < asset.numStrikes
  spacing_pos : 0 < asset.strikeSpacing

theorem validated_of_check (h : asset.check display = .ok ()) : asset.Validated := by
  simp only [check, ite_error_eq_ok] at h
  obtain ⟨-, -, hp, hcap, -, -, -, -, hn, -, hs, -⟩ := h
  have hmax : (maxPriceDollars : ℚ) = 1000000000000 := rfl
  constructor
  · simpa [F64.lt, F64.ofRat] using hp
  · simpa [F64.lt, hmax] using hcap
  · exact Nat.pos_of_ne_zero hn
  · simpa [F64.lt, F64.ofRat] using hs

/-- The strikes a client can use: distinct and ascending, worth something, no more than asked for,
and some unless the price itself is worth nothing. -/
structure Usable (asset : AssetConfig ℚ) : Prop where
  ascending : asset.generateStrikes.Pairwise (· < ·)
  positive : ∀ cents ∈ asset.generateStrikes, 0 < cents
  length_le : asset.generateStrikes.length ≤ asset.numStrikes
  nonempty : ∀ cents, centsOf asset.initialPrice = some cents → 0 < cents →
    asset.generateStrikes ≠ []

/-- The lowest strike is worth half a cent; or, when no strike is in range, the price is worth
less. -/
def Spaced (asset : AssetConfig ℚ) : Prop :=
  if asset.strikeSpacing ≤ 1000000000000 then
    1 / 200 ≤ asset.strikeSpacing ∨
      1 / 200 ≤ asset.initialPrice - (asset.numStrikes / 2 : ℕ) * asset.strikeSpacing
  else asset.initialPrice < 1 / 200

instance (asset : AssetConfig ℚ) : Decidable asset.Spaced := by
  unfold Spaced
  infer_instance

theorem strikeDollars_rat (asset : AssetConfig ℚ) (i : ℕ) : asset.strikeDollars i =
    max (asset.initialPrice + ((i : ℚ) - (asset.numStrikes / 2 : ℕ)) * asset.strikeSpacing)
      asset.strikeSpacing := rfl

theorem strikeDollars_mono (hs : 0 < asset.strikeSpacing) (hij : i ≤ j) :
    asset.strikeDollars i ≤ asset.strikeDollars j := by
  have hcast : (i : ℚ) ≤ j := by exact_mod_cast hij
  rw [strikeDollars_rat, strikeDollars_rat]
  apply max_le_max _ le_rfl
  have hoffset := mul_le_mul_of_nonneg_right
    (sub_le_sub_right hcast ((asset.numStrikes / 2 : ℕ) : ℚ)) hs.le
  linarith

theorem generateStrikes_eq (asset : AssetConfig ℚ) : asset.generateStrikes =
    ((List.range asset.numStrikes).filterMap fun i => centsOf (asset.strikeDollars i)).foldl
      pushNew [] := by
  rw [List.foldl_filterMap]
  unfold generateStrikes
  congr 1
  funext strikes i
  cases centsOf (asset.strikeDollars i) <;> rfl

theorem mem_generateStrikes : cents ∈ asset.generateStrikes ↔
    ∃ i < asset.numStrikes, centsOf (asset.strikeDollars i) = some cents := by
  simp [generateStrikes_eq, mem_foldl_pushNew]

theorem generateStrikes_ascending (hv : asset.Validated) :
    asset.generateStrikes.Pairwise (· < ·) := by
  rw [generateStrikes_eq]
  apply pairwise_foldl_pushNew
  · exact .nil
  · rw [List.pairwise_filterMap]
    apply List.pairwise_lt_range.imp
    intro i j hij c hc d hd
    exact centsOf_mono (strikeDollars_mono hv.spacing_pos hij.le) hc hd
  · nofun

theorem generateStrikes_length (asset : AssetConfig ℚ) :
    asset.generateStrikes.length ≤ asset.numStrikes := by
  have hkept := List.length_filterMap_le (fun i => centsOf (asset.strikeDollars i))
    (List.range asset.numStrikes)
  have hpushed : asset.generateStrikes.length ≤ ([] : List ℕ).length +
      ((List.range asset.numStrikes).filterMap fun i => centsOf (asset.strikeDollars i)).length := by
    rw [generateStrikes_eq]
    exact length_foldl_pushNew_le
  simp only [List.length_range, List.length_nil] at hkept hpushed
  omega

/-- The lowest strike: the offset of half the strikes below the price, or the spacing. -/
theorem strikeDollars_zero (asset : AssetConfig ℚ) : asset.strikeDollars 0 =
    max (asset.initialPrice - (asset.numStrikes / 2 : ℕ) * asset.strikeSpacing)
      asset.strikeSpacing := by
  rw [strikeDollars_rat]
  congr 1
  push_cast
  ring

theorem strikeDollars_nonneg (hv : asset.Validated) (i : ℕ) : 0 ≤ asset.strikeDollars i :=
  hv.spacing_pos.le.trans (le_max_right _ _)

/-- There are strikes exactly when the spacing is within the cap: then the lowest one is in range,
and otherwise none. -/
theorem generateStrikes_ne_nil (hv : asset.Validated) :
    asset.generateStrikes ≠ [] ↔ asset.strikeSpacing ≤ 1000000000000 := by
  constructor
  · intro hne
    obtain ⟨cents, hc⟩ := List.exists_mem_of_ne_nil _ hne
    obtain ⟨i, -, hi⟩ := mem_generateStrikes.mp hc
    exact (le_max_right _ _).trans (centsOf_rat.mp hi).2.1
  · intro hs
    have hoffset : 0 ≤ ((asset.numStrikes / 2 : ℕ) : ℚ) * asset.strikeSpacing :=
      mul_nonneg (Nat.cast_nonneg _) hv.spacing_pos.le
    have hzero : asset.strikeDollars 0 ≤ 1000000000000 := by
      rw [strikeDollars_zero]
      apply max_le _ hs
      linarith [hv.price_le]
    obtain ⟨cents, hc⟩ := Option.isSome_iff_exists.mp
      (centsOf_isSome.mpr ⟨strikeDollars_nonneg hv 0, hzero⟩)
    exact List.ne_nil_of_mem (mem_generateStrikes.mpr ⟨0, hv.strikes_pos, hc⟩)

/-- Within the cap, all strikes are worth something exactly when the lowest one is. -/
theorem generateStrikes_pos (hv : asset.Validated) (hs : asset.strikeSpacing ≤ 1000000000000) :
    (∀ cents ∈ asset.generateStrikes, 0 < cents) ↔ 1 / 200 ≤ asset.strikeDollars 0 := by
  constructor
  · intro h
    obtain ⟨cents, hc⟩ := List.exists_mem_of_ne_nil _ ((generateStrikes_ne_nil hv).mpr hs)
    obtain ⟨i, hi, hcents⟩ := mem_generateStrikes.mp hc
    have hzero : asset.strikeDollars 0 ≤ 1000000000000 :=
      (strikeDollars_mono hv.spacing_pos (Nat.zero_le i)).trans (centsOf_rat.mp hcents).2.1
    obtain ⟨lowest, hlow⟩ := Option.isSome_iff_exists.mp
      (centsOf_isSome.mpr ⟨strikeDollars_nonneg hv 0, hzero⟩)
    exact (centsOf_pos hlow).mp (h lowest (mem_generateStrikes.mpr ⟨0, hv.strikes_pos, hlow⟩))
  · intro h cents hc
    obtain ⟨i, -, hi⟩ := mem_generateStrikes.mp hc
    exact (centsOf_pos hi).mpr (h.trans (strikeDollars_mono hv.spacing_pos (Nat.zero_le i)))

/-- The strikes of a configured asset are usable exactly when the lowest of them is worth half a
cent, or none is in range and the price itself rounds to nothing. -/
theorem usable_iff {config : Config ℚ} (h : config.validate display = .ok ())
    (ha : asset ∈ config.assets) : asset.Usable ↔ asset.Spaced := by
  have hv : asset.Validated := validated_of_check (Config.check_of_validate display h ha)
  have hprice : ∀ cents, centsOf asset.initialPrice = some cents →
      (0 < cents ↔ 1 / 200 ≤ asset.initialPrice) := fun cents hc => centsOf_pos hc
  obtain ⟨cents, hcents⟩ := Option.isSome_iff_exists.mp
    (centsOf_isSome.mpr ⟨hv.price_pos.le, hv.price_le⟩)
  by_cases hs : asset.strikeSpacing ≤ 1000000000000
  · have hlow : asset.Spaced ↔ 1 / 200 ≤ asset.strikeDollars 0 := by
      rw [Spaced, if_pos hs, strikeDollars_zero, le_max_iff, or_comm]
    rw [hlow, ← generateStrikes_pos hv hs]
    constructor
    · exact fun hu => hu.positive
    · intro hpos
      exact
        { ascending := generateStrikes_ascending hv
          positive := hpos
          length_le := generateStrikes_length asset
          nonempty := fun _ _ _ => (generateStrikes_ne_nil hv).mpr hs }
  · have hnil : asset.generateStrikes = [] := by
      by_contra hne
      exact hs ((generateStrikes_ne_nil hv).mp hne)
    rw [Spaced, if_neg hs]
    constructor
    · intro hu
      by_contra hge
      exact hu.nonempty cents hcents ((hprice cents hcents).mpr (not_lt.mp hge)) hnil
    · intro hlt
      refine ⟨by simp [hnil], by simp [hnil], by simp [hnil], fun c hc hpos => ?_⟩
      exact absurd ((hprice c hc).mp hpos) (not_le.mpr hlt)

section Configurations

def bitcoin (initialPrice strikeSpacing : ℚ) (numStrikes : ℕ) : AssetConfig ℚ :=
  ⟨"BTC", initialPrice, 13 / 20, 1 / 20, ["20251231"], numStrikes, strikeSpacing⟩

def configured (asset : AssetConfig ℚ) : Config ℚ := ⟨⟨true, 1000⟩, none, [asset]⟩

/-- The default configuration. -/
theorem usable_default : (bitcoin 100000 1000 50).Usable := by
  have hvalid : (configured (bitcoin 100000 1000 50)).validate (fun _ => "") = .ok () := by
    decide +kernel
  exact (usable_iff hvalid List.mem_cons_self).mpr (by decide +kernel)

/-- A ladder of a tenth of a cent around one cent begins with a strike of zero. -/
theorem zero_strike : ¬ ∀ (config : Config ℚ) (display : ℚ → String),
    config.validate display = .ok () → ∀ asset ∈ config.assets, asset.Usable := by
  intro h
  have hvalid : (configured (bitcoin (1 / 100) (1 / 1000) 20)).validate (fun _ => "") = .ok () := by
    decide +kernel
  have husable := h _ _ hvalid _ List.mem_cons_self
  exact absurd (husable.positive 0 (by decide +kernel)) (by decide)

/-- A spacing beyond the price cap leaves no strike at all. -/
example : (bitcoin 100 10000000000000 5).generateStrikes = [] := by
  decide +kernel

end Configurations

end AssetConfig
end OptionChainBackend
