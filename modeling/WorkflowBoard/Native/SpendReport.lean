import WorkflowBoard.Native.CodeUnits
import WorkflowBoard.Native.Payment

/-!
# Spend that a provider reports (`modules/marketing/marketing-payment-returns.ts`)

A report gives the spend of a target as a decimal number in the units of its currency. It becomes
minor units by exact arithmetic, and what is left of a minor unit counts as a whole one.
-/

namespace WorkflowBoard.Marketing

/-- Reading from a provider has failed (`marketing-payments.ts`). -/
structure PaymentReadError where
  message : String
  retryable : Bool
deriving DecidableEq

def safeReportInteger (n : Int) : Except PaymentReadError Nat :=
  if n < 0 ∨ maxSafeInteger < n then
    .error ⟨"provider amount exceeds supported safe integer range", false⟩
  else .ok n.toNat

/-- `\d`. -/
def isDigitUnit (u : UInt16) : Bool := 0x30 ≤ u && u ≤ 0x39

/-- `BigInt` of digits. -/
def digitsValue (s : CodeUnits) : Nat := s.foldl (fun n u => n * 10 + (u.toNat - 0x30)) 0

/-- The unit between the whole and the fraction. -/
def dot : UInt16 := 0x2E

/-- `/^\d+(\.\d+)?$/`. -/
def isDecimal (s : CodeUnits) : Bool :=
  match s.splitOn dot with
  | [whole] => whole ≠ [] && whole.all isDigitUnit
  | [whole, fraction] =>
    whole ≠ [] && whole.all isDigitUnit && fraction ≠ [] && fraction.all isDigitUnit
  | _ => false

/-- `none` is a value that is no string. -/
def decimalSpendMinor (env : SpendEnv) (value : Option CodeUnits) (currency : String) :
    Except PaymentReadError Nat :=
  let invalid : PaymentReadError := ⟨"invalid decimal spend", false⟩
  match value with
  | none => .error invalid
  | some value =>
    if !isDecimal value || 100 < value.length then .error invalid
    else
      let parts := value.splitOn dot
      let whole := parts[0]?.getD []
      let fraction := parts[1]?.getD []
      let scale := 10 ^ fraction.length
      let numerator := (digitsValue whole * scale +
          digitsValue (if fraction = [] then [0x30] else fraction)) *
        10 ^ currencyExponent (env.toUpperCase currency)
      safeReportInteger (((numerator + scale - 1) / scale : Nat) : Int)

end WorkflowBoard.Marketing
