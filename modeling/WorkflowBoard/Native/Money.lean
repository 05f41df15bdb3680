import WorkflowBoard.ForStd.Except
import WorkflowBoard.Native.JsDate
import WorkflowBoard.Native.JsString
import Mathlib

/-!
# Amounts in minor units (`common/marketing/money.ts`)

All amounts are integers in the currency's minor unit. `MAX_MINOR_AMOUNT` keeps
them, and the sums the server forms of them, inside the range where a JavaScript
number is exact, so the model computes on `Nat` and `Int`.
-/

namespace WorkflowBoard.Marketing

/-- An error with the HTTP status the REST layer answers with. -/
structure MarketingError where
  status : Nat
  message : String

def marketingError (status : Nat) (message : String) : MarketingError := ⟨status, message⟩

def maxMinorAmount : Nat := 9000000000000

/-- `Number.MAX_SAFE_INTEGER`. -/
def maxSafeInteger : Nat := 9007199254740991

def isSafeInteger (n : Int) : Bool := n.natAbs ≤ maxSafeInteger

/-- A JSON value given where an amount is expected. -/
inductive RawAmount where
  | integer (n : Int)
  | fraction
  | text (s : String)
  | other

/-- The value of a string of decimal digits; `none` for any other string. -/
def digitsToNat? (cs : List Char) : Option Nat :=
  if cs ≠ [] ∧ cs.all Char.isDigit then
    some (cs.foldl (fun n c => n * 10 + (c.toNat - '0'.toNat)) 0)
  else
    none

/-- The integer a number or a digit string stands for. -/
def rawInteger (value : RawAmount) (label : String) : Except String Int :=
  let notInteger := label ++ " must be an integer amount in minor units " ++
    "(e.g. 50000 for 50,000 KRW, 1250 for 12.50 USD)"
  match value with
  | .integer n => .ok n
  -- A number that is no integer passes the type check and fails `isSafeInteger`.
  | .fraction => .error s!"{label} must be a non-negative integer amount in minor units"
  | .text s => (orThrow (digitsToNat? (jsTrim s)) notInteger).map Int.ofNat
  | .other => .error notInteger

def parseMinorAmount (value : RawAmount) (label : String) (allowZero : Bool := false) :
    Except String Nat := do
  let n ← rawInteger value label
  require (isSafeInteger n && 0 ≤ n)
    s!"{label} must be a non-negative integer amount in minor units"
  require (n ≠ 0 || allowZero) s!"{label} must be greater than 0"
  require (n ≤ maxMinorAmount)
    s!"{label} exceeds the maximum supported amount ({maxMinorAmount})"
  return n.toNat

/-- ISO 4217 codes with exponent 0. -/
def zeroDecimalCurrencies : List String :=
  ["BIF", "CLP", "DJF", "GNF", "ISK", "JPY", "KMF", "KRW", "PYG", "RWF", "UGX", "UYI", "VND",
    "VUV", "XAF", "XOF", "XPF"]

/-- ISO 4217 codes with exponent 3. -/
def threeDecimalCurrencies : List String :=
  ["BHD", "IQD", "JOD", "KWD", "LYD", "OMR", "TND"]

def currencyExponent (currency : String) : Nat :=
  let code := currency.toUpper
  if code ∈ zeroDecimalCurrencies then 0
  else if code ∈ threeDecimalCurrencies then 3
  else 2

/-- `n.toLocaleString('en-US')` of a non-negative integer. -/
def groupThousands (n : Nat) : String :=
  let digits := (toString n).toList.reverse
  String.ofList (digits.zipIdx.flatMap fun (c, i) =>
    if i ≠ 0 ∧ i % 3 = 0 then [',', c] else [c]).reverse

def formatMinorAmount (amount : Int) (currency : String) : String :=
  let exp := currencyExponent currency
  let abs := amount.natAbs
  let frac := if exp > 0 then "." ++ padStart (toString (abs % 10 ^ exp)) exp else ""
  (if amount < 0 then "-" else "") ++ groupThousands (abs / 10 ^ exp) ++ frac ++ " " ++ currency

/-- An accepted amount is positive and at most `MAX_MINOR_AMOUNT`. -/
theorem parseMinorAmount_bounds {value : RawAmount} {label : String} {n : Nat}
    (h : parseMinorAmount value label = .ok n) : 0 < n ∧ n ≤ maxMinorAmount := by
  simp only [parseMinorAmount, bind_eq_ok, require_eq_ok, pure_eq_ok,
    Bool.and_eq_true, decide_eq_true_eq, Bool.or_false] at h
  obtain ⟨m, -, _, ⟨-, hnn⟩, _, hne, _, hmax, rfl⟩ := h
  omega

end WorkflowBoard.Marketing
