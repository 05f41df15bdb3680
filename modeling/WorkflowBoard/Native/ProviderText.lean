import WorkflowBoard.ForStd.Replace
import WorkflowBoard.Native.CodeUnits

/-!
# Texts of payment providers (`common/marketing/payment-routes.ts`)

What a provider writes (the name of a campaign, an error) is stored and shown only after secrets are
removed from it, control characters are blanks, runs of white space are one blank and its length is
cut.
-/

namespace WorkflowBoard.Marketing.ProviderText

open CodeUnits

/-- Control characters, marks of direction, and characters without width. -/
def isHidden (u : UInt16) : Bool :=
  u ≤ 0x1F || (0x7F ≤ u && u ≤ 0x9F) || (0x200B ≤ u && u ≤ 0x200F) || u == 0x2028 || u == 0x2029 ||
    (0x202A ≤ u && u ≤ 0x202E) || (0x2060 ≤ u && u ≤ 0x2069) || u == 0xFEFF

/-- `/\s+/`. -/
def spaces (_before : Option UInt16) (s : CodeUnits) : Option Nat :=
  match (s.takeWhile isSpace).length with
  | 0 => none
  | n + 1 => some (n + 1)

/-- `none` is a value that is no string. -/
def cleanProviderText (value : Option CodeUnits) (max : Int := 300) : CodeUnits :=
  match value with
  | none => []
  | some value =>
    let value := value.map fun u => if isHidden u then 0x20 else u
    sliceTo (trim (replaceMatches spaces [0x20] value)) max

def redacted : CodeUnits := units "[redacted]"

/-- `text.split(secret).join('[redacted]')` for each secret of at least six units. -/
def scrubSecrets (text : CodeUnits) (secrets : List (Option CodeUnits)) : CodeUnits :=
  secrets.foldl (fun out secret =>
    match secret with
    | some secret => if 6 ≤ secret.length then replaceMatches (occurs secret) redacted out else out
    | none => out) text

/-- `\w`. -/
def isWordUnit (u : UInt16) : Bool :=
  (0x30 ≤ u && u ≤ 0x39) || (0x41 ≤ u && u ≤ 0x5A) || u == 0x5F || (0x61 ≤ u && u ≤ 0x7A)

/-- `[*A-Za-z0-9]`. -/
def isKeyUnit (u : UInt16) : Bool :=
  u == 0x2A || (0x30 ≤ u && u ≤ 0x39) || (0x41 ≤ u && u ≤ 0x5A) || (0x61 ≤ u && u ≤ 0x7A)

def keyHeads : List CodeUnits :=
  ["sk_live_", "sk_test_", "rk_live_", "rk_test_", "pk_live_", "pk_test_"].map units

/-- `/\b(?:sk|rk|pk)_(?:live|test)_[*A-Za-z0-9]+/`: a key, or what a provider shows of one. -/
def providerKey (before : Option UInt16) (s : CodeUnits) : Option Nat :=
  if before.any isWordUnit then none
  else
    match keyHeads.find? s.startsWith with
    | none => none
    | some head =>
      match ((s.drop head.length).takeWhile isKeyUnit).length with
      | 0 => none
      | n + 1 => some (head.length + (n + 1))

def providerMessage (value : Option CodeUnits) (secrets : List (Option CodeUnits))
    (max : Int := 300) : CodeUnits :=
  match value with
  | none => []
  | some value =>
    cleanProviderText (some (replaceMatches providerKey redacted (scrubSecrets value secrets))) max

end WorkflowBoard.Marketing.ProviderText
