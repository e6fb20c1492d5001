import Mathlib.Data.List.Basic
import Mathlib.Tactic.IntervalCases

/-!
Percent coding: a text is written with a few characters that stand for themselves, and each other
character as the bytes of its UTF-8 encoding, a percent sign and two digits each.
-/
namespace Foundation
namespace Percent

def hexDigit (n : ℕ) : Char := Char.ofNat (if n < 10 then 48 + n else 55 + n)

def hexValue (c : Char) : Option ℕ :=
  let n := c.toNat
  if 48 ≤ n ∧ n ≤ 57 then some (n - 48)
  else if 65 ≤ n ∧ n ≤ 70 then some (n - 55)
  else if 97 ≤ n ∧ n ≤ 102 then some (n - 87)
  else none

theorem hexValue_hexDigit {n : ℕ} (h : n < 16) : hexValue (hexDigit n) = some n := by
  interval_cases n <;> decide

theorem hexDigit_isAlphanum {n : ℕ} (h : n < 16) : (hexDigit n).isAlphanum = true := by
  interval_cases n <;> decide

def escape (b : UInt8) : List Char := ['%', hexDigit (b.toNat / 16), hexDigit (b.toNat % 16)]

variable {keep : Char → Bool} {c : Char} {s : String}

def encodeChar (keep : Char → Bool) (c : Char) : List Char :=
  if keep c then [c] else (String.utf8EncodeChar c).flatMap escape

def encode (keep : Char → Bool) (s : String) : String :=
  String.ofList (s.toList.flatMap (encodeChar keep))

/-- The bytes a text stands for; a percent sign without two digits behind it stands for itself. -/
def bytes : List Char → List UInt8
  | [] => []
  | [c] => String.utf8EncodeChar c
  | [c, d] => String.utf8EncodeChar c ++ String.utf8EncodeChar d
  | c :: x :: y :: rest =>
    match if c = '%' then hexValue x else none, hexValue y with
    | some hi, some lo => UInt8.ofNat (16 * hi + lo) :: bytes rest
    | _, _ => String.utf8EncodeChar c ++ bytes (x :: y :: rest)

/-- Percent-decode, then read the bytes as UTF-8. -/
def decode (s : String) : Option String :=
  (bytes s.toList).toByteArray.utf8Decode?.map fun cs => String.ofList cs.toList

section Bytes
variable {rest : List Char}

theorem bytes_escape (b : UInt8) (rest : List Char) :
    bytes (escape b ++ rest) = b :: bytes rest := by
  have hb := b.toNat_lt
  have hhi := hexValue_hexDigit (show b.toNat / 16 < 16 by omega)
  have hlo := hexValue_hexDigit (show b.toNat % 16 < 16 by omega)
  have hsum : 16 * (b.toNat / 16) + b.toNat % 16 = b.toNat := Nat.div_add_mod _ _
  simp [escape, bytes, hhi, hlo, hsum]

theorem bytes_cons (h : c ≠ '%') (rest : List Char) :
    bytes (c :: rest) = String.utf8EncodeChar c ++ bytes rest := by
  cases rest with
  | nil => simp [bytes]
  | cons x rest =>
    cases rest with
    | nil => simp [bytes]
    | cons y rest => simp [bytes, h]

theorem bytes_escapes (bs : List UInt8) (rest : List Char) :
    bytes (bs.flatMap escape ++ rest) = bs ++ bytes rest := by
  induction bs with
  | nil => rfl
  | cons b bs ih =>
    rw [List.flatMap_cons, List.append_assoc, bytes_escape, ih, List.cons_append]

theorem bytes_encodeChar (hkeep : keep '%' = false) (c : Char) (rest : List Char) :
    bytes (encodeChar keep c ++ rest) = String.utf8EncodeChar c ++ bytes rest := by
  unfold encodeChar
  split_ifs with hc
  · apply bytes_cons
    rintro rfl
    simp [hkeep] at hc
  · exact bytes_escapes _ _

theorem bytes_encode (hkeep : keep '%' = false) (l : List Char) :
    bytes (l.flatMap (encodeChar keep)) = l.flatMap String.utf8EncodeChar := by
  induction l with
  | nil => rfl
  | cons c l ih => rw [List.flatMap_cons, bytes_encodeChar hkeep, ih, List.flatMap_cons]

theorem bytes_plain {l : List Char} (h : '%' ∉ l) :
    bytes l = l.flatMap String.utf8EncodeChar := by
  induction l with
  | nil => rfl
  | cons c l ih =>
    obtain ⟨hc, hl⟩ := not_or.mp (mt List.mem_cons.mpr h)
    rw [bytes_cons (Ne.symm hc), ih hl, List.flatMap_cons]

end Bytes

theorem decode_of_bytes {l : List Char} (h : bytes s.toList = l.flatMap String.utf8EncodeChar) :
    decode s = some (String.ofList l) := by
  have hutf8 : (bytes s.toList).toByteArray = l.utf8Encode := by rw [h, List.utf8Encode]
  simp [decode, hutf8]

/-- An encoded text is read back. -/
theorem decode_encode (hkeep : keep '%' = false) (s : String) :
    decode (encode keep s) = some s := by
  have hbytes : bytes (encode keep s).toList = s.toList.flatMap String.utf8EncodeChar := by
    rw [encode, String.toList_ofList]
    exact bytes_encode hkeep _
  rw [decode_of_bytes hbytes, String.ofList_toList]

/-- Without percent signs there is nothing to decode. -/
theorem decode_plain (h : '%' ∉ s.toList) : decode s = some s := by
  rw [decode_of_bytes (bytes_plain h), String.ofList_toList]

theorem mem_encode (h : c ∈ (encode keep s).toList) :
    keep c = true ∨ c = '%' ∨ c.isAlphanum = true := by
  rw [encode, String.toList_ofList] at h
  obtain ⟨d, -, hd⟩ := List.mem_flatMap.mp h
  unfold encodeChar at hd
  split_ifs at hd with hkeep
  · obtain rfl := List.mem_singleton.mp hd
    exact .inl hkeep
  · obtain ⟨b, -, hb⟩ := List.mem_flatMap.mp hd
    have hlt := b.toNat_lt
    simp only [escape, List.mem_cons, List.not_mem_nil, or_false] at hb
    rcases hb with rfl | rfl | rfl
    · exact .inr (.inl rfl)
    · exact .inr (.inr (hexDigit_isAlphanum (by omega)))
    · exact .inr (.inr (hexDigit_isAlphanum (by omega)))

section Form

/-- The characters of a query that stand for themselves. -/
def keepForm (c : Char) : Bool := c.isAlphanum || c = '*' || c = '-' || c = '.' || c = '_'

def pairText (p : String × String) : String := encode keepForm p.1 ++ "=" ++ encode keepForm p.2

/-- Names and values, each percent-coded. -/
def formText (pairs : List (String × String)) : String := "&".intercalate (pairs.map pairText)

def readPair (piece : List Char) : Option (String × String) :=
  match piece.splitOn '=' with
  | [k, v] => do
    let name ← decode (String.ofList k)
    let value ← decode (String.ofList v)
    return (name, value)
  | _ => none

def readForm (s : String) : Option (List (String × String)) :=
  if s = "" then some [] else (s.toList.splitOn '&').mapM readPair

theorem not_mem_form {d : Char} (hd : keepForm d = false) (hp : d ≠ '%') (s : String) :
    d ∉ (encode keepForm s).toList := by
  intro hmem
  rcases mem_encode hmem with h | h | h
  · simp [hd] at h
  · exact hp h
  · simp [keepForm, h] at hd

theorem toList_pairText (p : String × String) : (pairText p).toList =
    (encode keepForm p.1).toList ++ '=' :: (encode keepForm p.2).toList := by
  simp [pairText]

theorem readPair_pairText (p : String × String) : readPair (pairText p).toList = some p := by
  have hname := not_mem_form (d := '=') (by decide) (by decide) p.1
  have hvalue := not_mem_form (d := '=') (by decide) (by decide) p.2
  have hsplit : (pairText p).toList.splitOn '=' =
      [(encode keepForm p.1).toList, (encode keepForm p.2).toList] := by
    rw [toList_pairText, List.splitOn_append_cons_self_of_not_mem hname,
      List.splitOn_eq_singleton hvalue]
  simp only [readPair, hsplit, String.ofList_toList, decode_encode (show keepForm '%' = false from rfl)]
  rfl

theorem ampersand_not_mem (p : String × String) : '&' ∉ (pairText p).toList := by
  have hname := not_mem_form (d := '&') (by decide) (by decide) p.1
  have hvalue := not_mem_form (d := '&') (by decide) (by decide) p.2
  simp [toList_pairText, hname, hvalue]

theorem mapM_readPair (pairs : List (String × String)) :
    ((pairs.map pairText).map String.toList).mapM readPair = some pairs := by
  induction pairs with
  | nil => rfl
  | cons p pairs ih =>
    rw [List.map_cons, List.map_cons, List.mapM_cons, readPair_pairText, ih]
    rfl

/-- A query is read back. -/
theorem readForm_formText (pairs : List (String × String)) :
    readForm (formText pairs) = some pairs := by
  cases pairs with
  | nil => rfl
  | cons p pairs =>
    have hsplit : (formText (p :: pairs)).toList.splitOn '&' =
        ((p :: pairs).map pairText).map String.toList := by
      rw [formText, String.toList_intercalate]
      apply List.splitOn_intercalate
      · intro l hl
        obtain ⟨s, hs, rfl⟩ := List.mem_map.mp hl
        obtain ⟨q, -, rfl⟩ := List.mem_map.mp hs
        exact ampersand_not_mem q
      · exact List.cons_ne_nil _ _
    have hne : formText (p :: pairs) ≠ "" := by
      intro hempty
      have hpiece : [[]] = ((p :: pairs).map pairText).map String.toList := by
        rw [← hsplit, hempty]
        rfl
      have hlist := (List.cons.inj hpiece).1
      rw [toList_pairText] at hlist
      simp at hlist
    rw [readForm, if_neg hne, hsplit, mapM_readPair]

end Form

end Percent
end Foundation
