import OptionChainBackend.Api.Admin

/-!
The control and price handlers: `api/controls.rs`. Values are checked before anything is applied;
`display` is how an `f64` is written in a message.
-/
namespace OptionChainBackend
open Foundation Upstream MarketMaker

structure KillSwitchResponse where
  success : Bool
  message : String
  masterEnabled : Bool
  deriving DecidableEq, Repr

structure UpdateParametersRequest (F : Type) where
  spreadMultiplier : Option F
  sizeScalar : Option F
  directionalSkew : Option F

structure UpdateParametersResponse (F : Type) where
  success : Bool
  spreadMultiplier : F
  sizeScalar : F
  directionalSkew : F

structure InstrumentToggleResponse where
  success : Bool
  symbol : String
  enabled : Bool
  deriving DecidableEq, Repr

structure InsertPriceRequest (F : Type) where
  symbol : String
  price : F
  bid : Option F
  ask : Option F

structure InsertPriceResponse where
  success : Bool
  symbol : String
  priceCents : ℕ
  deriving DecidableEq, Repr

section Checks
variable {F : Type} [F64 F] (display : F → String)

/-- `(min..=max).contains(&value)`; a value that is not finite lies in no such range. -/
def F64.within (value lo hi : F) : Bool :=
  F64.isFinite value && !F64.lt value lo && !F64.lt hi value

def validateControlValue (field : String) (value lo hi : F) : Except String F :=
  if F64.within value lo hi then .ok value
  else .error (field ++ " must be finite and within [" ++ display lo ++ ", " ++ display hi ++
    "], got " ++ display value)

def validateSpread (value : F) : Except String F :=
  validateControlValue display "spread_multiplier" value spreadMultiplierMin spreadMultiplierMax

def validateSize (value : F) : Except String F :=
  validateControlValue display "size_scalar" value sizeScalarMin sizeScalarMax

def validateSkew (value : F) : Except String F :=
  validateControlValue display "directional_skew" value directionalSkewMin directionalSkewMax

def maxPriceDollars : F := F64.ofRat 1000000000000

/-- `config::dollars_to_cents`. -/
def centsOf (value : F) : Option ℕ :=
  if F64.within value (F64.ofRat 0) maxPriceDollars then
    some (F64.toU64 (F64.round (F64.mul value (F64.ofRat 100))))
  else none

def dollarsToCents (field : String) (value : F) : Except ApiError ℕ :=
  if !F64.isFinite value then
    .error (.invalidRequest (field ++ " must be a finite number, got " ++ display value))
  else if F64.lt value (F64.ofRat 0) then
    .error (.invalidRequest (field ++ " must be non-negative, got " ++ display value))
  else if F64.lt maxPriceDollars value then
    .error (.invalidRequest (field ++ " exceeds maximum allowed value of " ++
      display (maxPriceDollars : F) ++ ", got " ++ display value))
  else match centsOf value with
    | some cents => .ok cents
    | none => .error (.invalidRequest (field ++ " is not a valid price, got " ++ display value))

def centsToI64 (field : String) (cents : ℕ) : Except ApiError ℕ :=
  if cents < 2 ^ 63 then .ok cents
  else .error (.invalidRequest (field ++ " is too large to store: " ++ toString cents))

end Checks

namespace AppState
variable {B F : Type} [Upstream B] [F64 F] (display : F → String)

def killSwitch (s : AppState B F) : KillSwitchResponse × AppState B F :=
  if s.engine.isEnabled then
    (⟨true, "Kill switch activated - all quoting disabled", false⟩,
      s.step (.engine (.setEnabled false)))
  else (⟨true, "Quoting was already disabled", false⟩, s)

def enableQuoting (s : AppState B F) : KillSwitchResponse × AppState B F :=
  (⟨true, "Quoting enabled", true⟩, s.step (.engine (.setEnabled true)))

/-- The checked parameters are applied one after the other. -/
def applyParameters (s : AppState B F) (spread size skew : Option F) : AppState B F :=
  let s := spread.elim s fun v => s.step (.engine (.setSpreadMultiplier v))
  let s := size.elim s fun v => s.step (.engine (.setSizeScalar v))
  skew.elim s fun v => s.step (.engine (.setDirectionalSkew v))

def updateParameters (s : AppState B F) (body : UpdateParametersRequest F) :
    Except ApiError (UpdateParametersResponse F) × AppState B F :=
  let checked : Except ApiError (Option F × Option F × Option F) := do
    let spread ← (body.spreadMultiplier.mapM (validateSpread display)).mapError .invalidRequest
    let size ← (body.sizeScalar.mapM (validateSize display)).mapError .invalidRequest
    let skew ← (body.directionalSkew.mapM (validateSkew display)).mapError .invalidRequest
    return (spread, size, skew)
  match checked with
  | .error e => (.error e, s)
  | .ok (spread, size, skew) =>
    let s := s.applyParameters spread size skew
    let config := s.engine.config
    (.ok ⟨true, config.spreadMultiplier, config.sizeScalar, config.directionalSkew⟩, s)

def toggleInstrument (s : AppState B F) (symbol : String) :
    InstrumentToggleResponse × AppState B F :=
  let wasEnabled := s.engine.isSymbolEnabled symbol
  (⟨true, symbol, !wasEnabled⟩, s.step (.engine (.setSymbolEnabled symbol !wasEnabled)))

/-- The price in cents, as the engine and as the database takes it. -/
def checkPrice (body : InsertPriceRequest F) : Except ApiError (ℕ × ℕ) := do
  let cents ← dollarsToCents display "price" body.price
  let bid ← body.bid.mapM (dollarsToCents display "bid")
  let ask ← body.ask.mapM (dollarsToCents display "ask")
  let stored ← centsToI64 "price" cents
  let _ ← bid.mapM (centsToI64 "bid")
  let _ ← ask.mapM (centsToI64 "ask")
  return (cents, stored)

def insertPrice (s : AppState B F) (body : InsertPriceRequest F) :
    Except ApiError InsertPriceResponse × AppState B F :=
  match checkPrice display body with
  | .error e => (.error e, s)
  | .ok (cents, stored) =>
    (.ok ⟨true, body.symbol, stored⟩, s.step (.engine (.updatePrice body.symbol cents)))

end AppState
end OptionChainBackend
