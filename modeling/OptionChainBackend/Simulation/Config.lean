import OptionChainBackend.Api.Controls
import OptionChainBackend.Foundation.Ascending

/-!
The configuration of the process (`config.rs`): what a loaded file was checked for, and the strikes
an asset is given.
-/
namespace OptionChainBackend
open Foundation MarketMaker

inductive ConfigError where
  | invalidValue (message : String)
  deriving DecidableEq, Repr

structure AuthConfig where
  defaultTtlSecs : ℕ

structure SimulationConfig where
  enabled : Bool
  intervalMs : ℕ

/-- Prices and spacings are in dollars. -/
structure AssetConfig (F : Type) where
  symbol : String
  initialPrice : F
  volatility : F
  drift : F
  expirations : List String
  numStrikes : ℕ
  strikeSpacing : F

structure Config (F : Type) where
  simulation : SimulationConfig
  auth : Option AuthConfig
  assets : List (AssetConfig F)

theorem ite_error_eq_ok {ε α : Type} {c : Prop} [Decidable c] {e : ε} {r : Except ε α} {a : α} :
    (if c then .error e else r) = .ok a ↔ ¬ c ∧ r = .ok a := by
  split_ifs with h <;> simp [h]

section Checks
variable {F : Type} [F64 F] (display : F → String)

def maxVolatility : F := F64.ofRat 5

/-- The checks of `Config::validate` on one asset, in their order. -/
def AssetConfig.check (asset : AssetConfig F) : Except ConfigError Unit :=
  if asset.symbol = "" then .error (.invalidValue "asset symbol cannot be empty")
  else if !F64.isFinite asset.initialPrice then
    .error (.invalidValue ("asset " ++ asset.symbol ++ " initial_price must be finite, got " ++
      display asset.initialPrice))
  else if !F64.lt (F64.ofRat 0) asset.initialPrice then
    .error (.invalidValue ("asset " ++ asset.symbol ++ " initial_price must be positive, got " ++
      display asset.initialPrice))
  else if F64.lt maxPriceDollars asset.initialPrice then
    .error (.invalidValue ("asset " ++ asset.symbol ++ " initial_price " ++
      display asset.initialPrice ++ " exceeds maximum " ++ display maxPriceDollars))
  else if !F64.isFinite asset.volatility then
    .error (.invalidValue ("asset " ++ asset.symbol ++ " volatility must be finite, got " ++
      display asset.volatility))
  else if !F64.lt (F64.ofRat 0) asset.volatility || F64.lt maxVolatility asset.volatility then
    .error (.invalidValue ("asset " ++ asset.symbol ++ " volatility must be between 0 and " ++
      display maxVolatility ++ ", got " ++ display asset.volatility))
  else if !F64.isFinite asset.drift then
    .error (.invalidValue ("asset " ++ asset.symbol ++ " drift must be finite, got " ++
      display asset.drift))
  else if asset.expirations.isEmpty then
    .error (.invalidValue ("asset " ++ asset.symbol ++ " must have at least one expiration"))
  else if asset.numStrikes = 0 then
    .error (.invalidValue ("asset " ++ asset.symbol ++ " num_strikes must be positive"))
  else if !F64.isFinite asset.strikeSpacing then
    .error (.invalidValue ("asset " ++ asset.symbol ++ " strike_spacing must be finite, got " ++
      display asset.strikeSpacing))
  else if !F64.lt (F64.ofRat 0) asset.strikeSpacing then
    .error (.invalidValue ("asset " ++ asset.symbol ++ " strike_spacing must be positive, got " ++
      display asset.strikeSpacing))
  else .ok ()

/-- `Config::validate`. -/
def Config.validate (self : Config F) : Except ConfigError Unit :=
  if self.auth.any (·.defaultTtlSecs = 0) then
    .error (.invalidValue "auth default_ttl_secs must be positive")
  else if self.simulation.intervalMs = 0 then
    .error (.invalidValue "simulation interval_ms must be greater than zero")
  else if self.assets.isEmpty then
    .error (.invalidValue "at least one asset must be configured")
  else forM self.assets (AssetConfig.check display)

theorem Config.check_of_validate {self : Config F} (h : self.validate display = .ok ())
    {asset : AssetConfig F} (ha : asset ∈ self.assets) : asset.check display = .ok () := by
  unfold Config.validate at h
  split_ifs at h
  have hall : ∀ assets : List (AssetConfig F), forM assets (AssetConfig.check display) = .ok () →
      ∀ asset ∈ assets, asset.check display = .ok () := by
    intro assets
    induction assets with
    | nil => simp
    | cons head assets ih =>
      intro hm
      rw [List.forM_cons] at hm
      cases hc : head.check display with
      | error e =>
        rw [hc] at hm
        cases hm
      | ok u =>
        rw [hc] at hm
        simp only [List.mem_cons, forall_eq_or_imp]
        exact ⟨hc, ih hm⟩
  exact hall _ h asset ha

end Checks

section Strikes
variable {F : Type} [F64 F]

/-- The dollar value of strike `i`: symmetric offsets around the price, floored at the spacing. -/
def AssetConfig.strikeDollars (self : AssetConfig F) (i : ℕ) : F :=
  let halfCount := self.numStrikes / 2
  let offset := F64.mul (F64.sub (F64.ofNat i) (F64.ofNat halfCount)) self.strikeSpacing
  F64.max (F64.add self.initialPrice offset) self.strikeSpacing

/-- `AssetConfig::generate_strikes`: in cents, leaving out what is out of range and what repeats
the strike before it. -/
def AssetConfig.generateStrikes (self : AssetConfig F) : List ℕ :=
  (List.range self.numStrikes).foldl (fun strikes i =>
    match centsOf (self.strikeDollars i) with
    | some cents => pushNew strikes cents
    | none => strikes) []

end Strikes
end OptionChainBackend
