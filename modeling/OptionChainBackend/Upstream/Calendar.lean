import Mathlib.Data.Int.Basic

/-! Expirations, option styles and the calendar arithmetic behind `YYYYMMDD` segments. -/
namespace OptionChainBackend

inductive OptionStyle where
  | call | put
  deriving DecidableEq, Repr

/-- A UTC instant: days since 1970-01-01 and the second within that day. -/
structure DateTime where
  day : ℤ
  second : ℕ
  deriving DecidableEq, Repr

/-- A relative number of days, or an absolute instant. -/
inductive ExpirationDate where
  | days (n : ℕ)
  | dateTime (instant : DateTime)
  deriving DecidableEq, Repr

/-- The address of one option order book in the hierarchy. -/
structure OptionAddr where
  underlying : String
  expiration : ExpirationDate
  strike : ℕ
  style : OptionStyle
  deriving DecidableEq, Repr

namespace Calendar

def isLeap (year : ℤ) : Bool :=
  decide (year % 4 = 0) && (decide (year % 100 ≠ 0) || decide (year % 400 = 0))

def daysInMonth (year : ℤ) (month : ℕ) : ℕ :=
  match month with
  | 2 => if isLeap year then 29 else 28
  | 4 | 6 | 9 | 11 => 30
  | _ => 31

/-- Days since 1970-01-01 in the proleptic Gregorian calendar; years start in March. -/
def dayOfCivil (year : ℤ) (month day : ℕ) : ℤ :=
  let y := if month ≤ 2 then year - 1 else year
  let era := y / 400
  let yearOfEra := y - era * 400
  let dayOfYear : ℤ := (153 * (if month > 2 then month - 3 else month + 9) + 2) / 5 + day - 1
  era * 146097 + yearOfEra * 365 + yearOfEra / 4 - yearOfEra / 100 + dayOfYear - 719468

/-- Year, month and day of a day number. -/
def civilOfDay (z : ℤ) : ℤ × ℕ × ℕ :=
  let z := z + 719468
  let era := z / 146097
  let doe := z - era * 146097
  let yoe := (doe - doe / 1460 + doe / 36524 - doe / 146096) / 365
  let doy := doe - (365 * yoe + yoe / 4 - yoe / 100)
  let mp := (5 * doy + 2) / 153
  let day := (doy - (153 * mp + 2) / 5 + 1).toNat
  let month := (if mp < 10 then mp + 3 else mp - 9).toNat
  (yoe + era * 400 + if month ≤ 2 then 1 else 0, month, day)

/-- `NaiveDate::from_ymd_opt`. -/
def fromYmdOpt (year : ℤ) (month day : ℕ) : Option ℤ :=
  if 1 ≤ month ∧ month ≤ 12 ∧ 1 ≤ day ∧ day ≤ daysInMonth year month then
    some (dayOfCivil year month day)
  else none

def padLeft (width n : ℕ) : String :=
  let s := toString n
  String.ofList (List.replicate (width - s.length) '0') ++ s

/-- The `%Y%m%d` form of an instant; years outside 0..9999 carry a sign. -/
def formatYmd (t : DateTime) : String :=
  let (year, month, day) := civilOfDay t.day
  let y := padLeft 4 year.natAbs
  let y := if year < 0 then "-" ++ y else if 9999 < year then "+" ++ y else y
  y ++ padLeft 2 month ++ padLeft 2 day

end Calendar

example : Calendar.civilOfDay (Calendar.dayOfCivil 2024 2 29) = (2024, 2, 29) := by decide

end OptionChainBackend
