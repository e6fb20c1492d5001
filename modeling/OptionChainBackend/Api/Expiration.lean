import OptionChainBackend.Api.Models
import OptionChainBackend.Upstream.Changes

/-! Path segments: option styles, expirations, and the book they lead to. -/
namespace OptionChainBackend
open Upstream

def lowercase (s : String) : String := String.ofList (s.toList.map Char.toLower)

def parseOptionStyle (style : String) : Except ApiError OptionStyle :=
  if lowercase style = "call" ∨ lowercase style = "c" then .ok .call
  else if lowercase style = "put" ∨ lowercase style = "p" then .ok .put
  else .error (.invalidRequest s!"Invalid option style: {style}. Use 'call' or 'put'")

/-- The style names of tracked orders and of the cancel-all filter: no short forms. -/
def styleOfName (style : String) : Option OptionStyle :=
  if lowercase style = "call" then some .call
  else if lowercase style = "put" then some .put
  else none

theorem styleOfName_styleName (style : OptionStyle) :
    styleOfName (MarketMaker.Desk.styleName style) = some style := by
  cases style <;> decide +kernel

section Parsing

def digitsValue (cs : List Char) : ℕ := Nat.ofDigitChars 10 cs 0

/-- `str::parse::<i32>`. -/
def parseI32 (s : String) : Option ℤ :=
  let value (sign : ℤ) (cs : List Char) : Option ℤ :=
    let n := sign * digitsValue cs
    if cs ≠ [] ∧ cs.all Char.isDigit ∧ -2 ^ 31 ≤ n ∧ n < 2 ^ 31 then some n else none
  match s.toList with
  | '+' :: cs => value 1 cs
  | '-' :: cs => value (-1) cs
  | cs => value 1 cs

def maxExpirationDays : ℤ := 36500

/-- Eight ASCII digits are always a calendar date; any other number is a count of days. -/
def parseExpiration (expStr : String) : Except ApiError ExpirationDate :=
  let cs := expStr.toList
  if cs.length = 8 ∧ cs.all Char.isDigit then
    match Calendar.fromYmdOpt (digitsValue (cs.take 4)) (digitsValue ((cs.drop 4).take 2))
        (digitsValue (cs.drop 6)) with
    | some day => .ok (.dateTime ⟨day, 16 * 3600⟩)
    | none => .error (.invalidRequest (s!"invalid expiration date: {expStr}. An 8-digit " ++
        "expiration must be a valid YYYYMMDD calendar date"))
  else
    match parseI32 expStr with
    | some days =>
      if days ≤ 0 then
        .error (.invalidRequest
          s!"invalid expiration: {expStr}. Expiration must be a positive number of days")
      else if maxExpirationDays < days then
        .error (.invalidRequest
          s!"invalid expiration: {expStr}. Expiration must be at most {maxExpirationDays} days")
      else .ok (.days days.toNat)
    | none => .error (.invalidRequest (s!"Invalid expiration format: {expStr}. " ++
        "Use days (e.g., '30') or YYYYMMDD (e.g., '20240329')"))

end Parsing

section Lookup
variable (B : Type) [Upstream B]

def formatExpiration (now : ℕ) (e : ExpirationDate) : String :=
  match getDate B now e with
  | some t => Calendar.formatYmd t
  | none => displayExpiration B now e

def parseGtdExpireAt (expireAt : Option String) (nowMs : ℕ) : Except ApiError ℕ :=
  match expireAt with
  | none => .error (.invalidRequest "GTD order requires expire_at")
  | some expireStr =>
    match parseRfc3339 B expireStr with
    | .error e => .error (.invalidRequest s!"invalid expire_at '{expireStr}': {e}")
    | .ok ms =>
      if ms < 0 then
        .error (.invalidRequest
          s!"invalid expire_at '{expireStr}': out of representable range")
      else if ms ≤ nowMs then
        .error (.invalidRequest (s!"expire_at '{expireStr}' is in the past or now; " ++
          "GTD order would expire immediately"))
      else .ok ms.toNat

end Lookup

/-- What was missing on the way to an option book. -/
inductive Missing where
  | underlying | expiration | strike
  deriving DecidableEq, Repr

namespace Exchange
variable {B : Type} [Upstream B]

/-- `find_expiration_by_str`: the formatted date first, the parsed segment second. -/
def findExpirationByStr (x : Exchange B) (underlying expStr : String) : Option ExpirationDate :=
  match (x.expirations underlying).find? (fun e => formatExpiration B x.now e = expStr) with
  | some e => some e
  | none =>
    match parseExpiration expStr with
    | .ok parsed => (x.expirations underlying).find? (· = parsed)
    | .error _ => none

/-- The lookups every handler but the creating ones makes on the way to an option book. -/
def locate (x : Exchange B) (underlying expStr : String) (strike : ℕ) (style : OptionStyle) :
    Except Missing OptionAddr :=
  if x.get underlying then
    match x.findExpirationByStr underlying expStr with
    | none => .error .expiration
    | some e =>
      if x.getExpiration underlying e then
        if x.getStrike underlying e strike then .ok ⟨underlying, e, strike, style⟩
        else .error .strike
      else .error .expiration
  else .error .underlying

variable {x x' : Exchange B} {underlying expStr : String} {strike : ℕ} {style : OptionStyle}
  {e : ExpirationDate} {a : OptionAddr}

theorem findExpirationByStr_mem (h : x.findExpirationByStr underlying expStr = some e) :
    e ∈ x.expirations underlying := by
  unfold findExpirationByStr at h
  split at h
  · rename_i e' hf
    rw [← Option.some.inj h]
    exact List.mem_of_find?_eq_some hf
  · split at h
    · exact List.mem_of_find?_eq_some h
    · cases h

theorem locate_ok (h : x.locate underlying expStr strike style = .ok a) :
    x.findExpirationByStr underlying expStr = some a.expiration ∧ a.underlying = underlying ∧
      a.strike = strike ∧ a.style = style ∧ x.hasBook a = true := by
  unfold locate at h
  split_ifs at h with hu
  split at h
  · cases h
  · rename_i e he
    split_ifs at h with hexp hs
    obtain rfl := Except.ok.inj h
    refine ⟨he, rfl, rfl, rfl, ?_⟩
    simp [Catalog.hasBook, hu, hexp, hs]

/-- The way to a book that exists, when its segment finds its expiration. -/
theorem locate_of_find (h : x.findExpirationByStr a.underlying expStr = some a.expiration)
    (hb : x.hasBook a = true) : x.locate a.underlying expStr a.strike a.style = .ok a := by
  simp only [Catalog.hasBook, Bool.and_eq_true] at hb
  simp [locate, hb.1.1, hb.1.2, hb.2, h]

theorem locate_congr (hc : x'.toCatalog = x.toCatalog) (hn : x'.now = x.now) :
    x'.locate underlying expStr strike style = x.locate underlying expStr strike style := by
  simp only [locate, findExpirationByStr, hc, hn]

end Exchange
end OptionChainBackend
