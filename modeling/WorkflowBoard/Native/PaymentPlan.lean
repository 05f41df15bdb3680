import WorkflowBoard.ForStd.Double
import WorkflowBoard.Native.Json
import WorkflowBoard.Native.Payment

/-!
# Plans of direct payments (`common/marketing/payment-routes.ts`)

A direct adapter of an ad platform raises a ceiling there: `buildCeilingPlan` makes the plan of a
request from the ceiling as it is, and `directPlanProblems` compares a stored plan with its request
before it is approved and before it is executed. Amounts are integers of any size in the units of
the provider and in minor units; a stored plan is JSON, whose numbers are doubles.
-/

namespace WorkflowBoard.Marketing

/-! ## Currencies -/

structure CurrencySpec where
  exponent : Nat
  meta_offset : Nat

/-- `PAYMENT_CURRENCIES`. -/
def paymentCurrencies : List (String × CurrencySpec) :=
  [("AED", ⟨2, 100⟩), ("ARS", ⟨2, 100⟩), ("AUD", ⟨2, 100⟩), ("BDT", ⟨2, 100⟩),
    ("BGN", ⟨2, 100⟩), ("BHD", ⟨3, 100⟩), ("BOB", ⟨2, 100⟩), ("BRL", ⟨2, 100⟩),
    ("CAD", ⟨2, 100⟩), ("CHF", ⟨2, 100⟩), ("CLP", ⟨0, 1⟩), ("CNY", ⟨2, 100⟩),
    ("COP", ⟨2, 1⟩), ("CRC", ⟨2, 1⟩), ("CZK", ⟨2, 100⟩), ("DKK", ⟨2, 100⟩),
    ("DZD", ⟨2, 100⟩), ("EGP", ⟨2, 100⟩), ("EUR", ⟨2, 100⟩), ("GBP", ⟨2, 100⟩),
    ("GTQ", ⟨2, 100⟩), ("HKD", ⟨2, 100⟩), ("HNL", ⟨2, 100⟩), ("HUF", ⟨2, 1⟩),
    ("IDR", ⟨2, 1⟩), ("ILS", ⟨2, 100⟩), ("INR", ⟨2, 100⟩), ("ISK", ⟨0, 1⟩),
    ("JOD", ⟨3, 100⟩), ("JPY", ⟨0, 1⟩), ("KES", ⟨2, 100⟩), ("KRW", ⟨0, 1⟩),
    ("MOP", ⟨2, 100⟩), ("MXN", ⟨2, 100⟩), ("MYR", ⟨2, 100⟩), ("NGN", ⟨2, 100⟩),
    ("NIO", ⟨2, 100⟩), ("NOK", ⟨2, 100⟩), ("NZD", ⟨2, 100⟩), ("PEN", ⟨2, 100⟩),
    ("PHP", ⟨2, 100⟩), ("PKR", ⟨2, 100⟩), ("PLN", ⟨2, 100⟩), ("PYG", ⟨0, 1⟩),
    ("QAR", ⟨2, 100⟩), ("RON", ⟨2, 100⟩), ("RSD", ⟨2, 100⟩), ("RUB", ⟨2, 100⟩),
    ("SAR", ⟨2, 100⟩), ("SEK", ⟨2, 100⟩), ("SGD", ⟨2, 100⟩), ("THB", ⟨2, 100⟩),
    ("TRY", ⟨2, 100⟩), ("TWD", ⟨2, 1⟩), ("UAH", ⟨2, 100⟩), ("USD", ⟨2, 100⟩),
    ("UYU", ⟨2, 100⟩), ("VES", ⟨2, 100⟩), ("VND", ⟨0, 1⟩), ("ZAR", ⟨2, 100⟩)]

variable (env : SpendEnv)

def currencySpec (currency : String) : Except MarketingError CurrencySpec := do
  let code := env.toUpperCase currency
  let spec ← orThrow (paymentCurrencies.lookup code) (marketingError 409
    s!"currency {currency} is not supported by the direct payment adapters")
  require (currencyExponent code == spec.exponent) (marketingError 409
    s!"currency {currency} has an inconsistent minor unit")
  return spec

/-! ## Units -/

/-- `parseProviderInt`: decimal digits, nineteen at most, or a safe integer. -/
def parseProviderInt (value : Option Json) (label : String) : Except MarketingError Int :=
  let refused := marketingError 502 s!"{label} is not a non-negative integer"
  match value with
  | some (.num x) =>
    if x.den = 1 ∧ isSafeInteger x.num = true ∧ 0 ≤ x.num then .ok x.num else .error refused
  | some (.str s) =>
    if s.toList.length ≤ 19 then
      (orThrow (digitsToNat? s.toList) refused).map Int.ofNat
    else .error refused
  | _ => .error refused

/-- `INT64_MAX`. -/
def int64Max : Int := 9223372036854775807

/-- `Number(value)` of a big integer. -/
def numberOf (value : Int) : ℚ := roundDouble value

/-- Minor units to Meta's; what does not divide is refused. -/
def minorToMetaUnits (minor : Int) (currency : String) : Except MarketingError Int := do
  let spec ← currencySpec env currency
  let minorPerUnit : Int := 10 ^ spec.exponent
  if minorPerUnit ≤ spec.meta_offset then
    return minor * ((spec.meta_offset : Int).tdiv minorPerUnit)
  else
    let divisor := minorPerUnit.tdiv spec.meta_offset
    let amount := formatMinorAmount (numberOf minor).num currency
    let multiple := formatMinorAmount divisor currency
    require (minor.tmod divisor == 0) (marketingError 400
      s!"{amount} cannot be expressed in Meta's {currency} unit — use a multiple of {multiple}")
    return minor.tdiv divisor

/-- Meta's units to minor units, exactly. -/
def metaUnitsToMinor (units : Int) (currency : String) : Except MarketingError Int := do
  let spec ← currencySpec env currency
  let minorPerUnit : Int := 10 ^ spec.exponent
  if minorPerUnit ≤ spec.meta_offset then
    let per := (spec.meta_offset : Int).tdiv minorPerUnit
    require (units.tmod per == 0) (marketingError 502
      s!"Meta amount {units} {currency} is finer than the {currency} minor unit")
    return units.tdiv per
  else return units * minorPerUnit.tdiv spec.meta_offset

/-- Minor units to Google's micros. -/
def minorToGoogleMicros (minor : Int) (currency : String) : Except MarketingError Int := do
  let spec ← currencySpec env currency
  return minor * 10 ^ (6 - spec.exponent)

def googleMicrosToMinor (micros : Int) (currency : String) : Except MarketingError Int := do
  let spec ← currencySpec env currency
  let per : Int := 10 ^ (6 - spec.exponent)
  require (micros.tmod per == 0) (marketingError 502
    s!"Google amount {micros} micros is finer than the {currency} minor unit")
  return micros.tdiv per

/-- What is raised at a ceiling provider, and in which units: an entry of `CEILING_UNITS`. -/
structure CeilingUnits where
  field : String
  toUnits : Int → String → Except MarketingError Int
  toMinor : Int → String → Except MarketingError Int

/-- The ceiling providers. -/
inductive CeilingProvider where
  | metaAds
  | googleAds

namespace CeilingProvider

def code : CeilingProvider → String
  | .metaAds => "meta_ads"
  | .googleAds => "google_ads"

def provider : CeilingProvider → PaymentProvider
  | .metaAds => .metaAds
  | .googleAds => .googleAds

def units : CeilingProvider → CeilingUnits
  | .metaAds => ⟨"spend_cap", minorToMetaUnits env, metaUnitsToMinor env⟩
  | .googleAds => ⟨"total_amount_micros", minorToGoogleMicros env, googleMicrosToMinor env⟩

end CeilingProvider

/-! ## Targets -/

/-- `/^\d{1,30}$/`. -/
def isTargetId (cs : List Char) : Bool := cs ≠ [] && cs.length ≤ 30 && cs.all Char.isDigit

/-- `\s*\/\s*(\d{1,30})$`: the campaign behind the slash. -/
def campaignBehindSlash (cs : List Char) : Option String :=
  match cs.dropWhile isJsSpace with
  | '/' :: rest =>
    let campaign := rest.dropWhile isJsSpace
    if isTargetId campaign then some (String.ofList campaign) else none
  | _ => none

/-- `act_<account>/<campaign>`. -/
def parseMetaRef (raw : String) : Except MarketingError (List (String × String)) :=
  let target : Option (List (String × String)) :=
    match jsTrim raw with
    | 'a' :: 'c' :: 't' :: '_' :: cs => do
      let account := cs.takeWhile Char.isDigit
      let campaign ← campaignBehindSlash (cs.dropWhile Char.isDigit)
      if isTargetId account then
        some [("ad_account_id", String.ofList account), ("campaign_id", campaign)]
      else none
    | _ => none
  orThrow target (marketingError 400 ("Meta Ads payee ref must look like " ++
    "act_<광고 계정 id>/<캠페인 id> (예: act_1234567890/120210000000000)"))

/-- Some digits at the start, and what is behind them. -/
def takeDigits (n : Nat) (cs : List Char) : Option (List Char × List Char) :=
  if (cs.take n).length = n ∧ (cs.take n).all Char.isDigit = true then some (cs.take n, cs.drop n)
  else none

/-- `-?`. -/
def dropDash : List Char → List Char
  | '-' :: cs => cs
  | cs => cs

/-- `<customer>/<campaign>`, the customer of ten digits that dashes may group. -/
def parseGoogleRef (raw : String) : Except MarketingError (List (String × String)) :=
  let target : Option (List (String × String)) := do
    let (a, cs) ← takeDigits 3 (jsTrim raw)
    let (b, cs) ← takeDigits 3 (dropDash cs)
    let (c, cs) ← takeDigits 4 (dropDash cs)
    let campaign ← campaignBehindSlash cs
    some [("customer_id", String.ofList (a ++ b ++ c)), ("campaign_id", campaign)]
  orThrow target (marketingError 400 ("Google Ads payee ref must look like " ++
    "<고객 id>/<캠페인 id> (예: 123-456-7890/22334455)"))

/-- The target of a ceiling provider, its fields in order. -/
def parseDirectRef (provider : CeilingProvider) (raw : String) :
    Except MarketingError (List (String × String)) :=
  match provider with
  | .metaAds => parseMetaRef raw
  | .googleAds => parseGoogleRef raw

/-! ## Plans -/

/-- The text of a name that a person gave at the provider: control and direction characters and
    runs of white space become one blank. -/
def cleanProviderText (value : Option String) (max : Nat) : String :=
  match value with
  | none => ""
  | some value =>
    let blanked := value.toList.map fun c =>
      if c.toNat ≤ 0x1f ∨ (0x7f ≤ c.toNat ∧ c.toNat ≤ 0x9f) ∨
          (0x200b ≤ c.toNat ∧ c.toNat ≤ 0x200f) ∨ (0x2028 ≤ c.toNat ∧ c.toNat ≤ 0x202e) ∨
          (0x2060 ≤ c.toNat ∧ c.toNat ≤ 0x2069) ∨ c.toNat = 0xfeff then ' ' else c
    let words := (blanked.splitOnP isJsSpace).filter (· ≠ [])
    sliceText max (String.ofList ([' '].intercalate words))

structure CeilingPlan where
  provider : CeilingProvider
  target : List (String × String)
  target_name_untrusted : String
  field : String
  currency : String
  fromUnits : String
  toUnits : String
  from_minor : Int
  to_minor : Int
  credential_fingerprint : String
  test_account : Option Bool
  end_date_time : Option String

/-- The plan as it is stored. -/
def CeilingPlan.toJson (plan : CeilingPlan) : Json :=
  .obj ([("plan", .str "raise_ceiling"), ("provider", .str plan.provider.code),
    ("target", .obj (plan.target.map fun (key, value) => (key, .str value))),
    ("target_name_untrusted", .str plan.target_name_untrusted), ("field", .str plan.field),
    ("currency", .str plan.currency), ("from", .str plan.fromUnits), ("to", .str plan.toUnits),
    ("from_minor", .num plan.from_minor), ("to_minor", .num plan.to_minor),
    ("credential_fingerprint", .str plan.credential_fingerprint)] ++
    (plan.test_account.map fun b => ("test_account", .bool b)).toList ++
    (plan.end_date_time.map fun s => ("end_date_time", .str s)).toList)

structure CeilingInput where
  provider : CeilingProvider
  target : List (String × String)
  targetName : Option String
  currency : String
  fromUnits : Int
  amountMinor : Int
  credentialFingerprint : String
  test_account : Option Bool
  end_date_time : Option String

def safeMinor (value : Int) (label : String) : Except MarketingError Int := do
  let n := numberOf value
  require (n.den == 1 && isSafeInteger n.num && 0 ≤ n.num)
    (marketingError 502 s!"{label} is out of range")
  return n.num

def buildCeilingPlan (input : CeilingInput) : Except MarketingError CeilingPlan := do
  let units := input.provider.units env
  let fromMinor ← units.toMinor input.fromUnits input.currency
  let raise ← units.toUnits input.amountMinor input.currency
  let toUnits := input.fromUnits + raise
  require (toUnits ≤ int64Max)
    (marketingError 400 "the raised ceiling would exceed the provider maximum")
  let toMinor ← units.toMinor toUnits input.currency
  return {
    provider := input.provider
    target := input.target
    target_name_untrusted := cleanProviderText input.targetName 120
    field := units.field
    currency := input.currency
    fromUnits := toString input.fromUnits
    toUnits := toString toUnits
    from_minor := ← safeMinor fromMinor "current ceiling"
    to_minor := ← safeMinor toMinor "new ceiling"
    credential_fingerprint := input.credentialFingerprint
    test_account := input.test_account
    end_date_time := input.end_date_time }

/-! ## The check of a stored plan -/

/-- A request as far as its plan is compared with it. -/
structure PlanRow where
  provider : PaymentProvider
  payee_ref : String
  currency : String
  amount_minor : ℚ
  payload : Json

/-- A problem, if there is one. -/
def problemIf (bad : Bool) (problem : String) : List String := if bad then [problem] else []

/-- `/^[0-9a-f]{16}$/`. -/
def isFingerprint (s : String) : Bool :=
  s.toList.length == 16 && s.toList.all fun c => c.isDigit || ('a' ≤ c && c ≤ 'f')

def fingerprintProblem (plan : Json) : List String :=
  match plan.get "credential_fingerprint" with
  | some (.str s) => problemIf (!isFingerprint s) "plan has no credential fingerprint"
  | _ => ["plan has no credential fingerprint"]

/-- `Number(value)`: the number itself; what another value is read as is left open. -/
def toNumber (coerce : Json → Option ℚ) (value : Option Json) : Option ℚ :=
  match value with
  | some (.num x) => some x
  | some value => coerce value
  | none => none

/-- The fields of the target that differ from the payee's. -/
def targetProblems (plan : Json) (target : List (String × String)) : List String :=
  target.flatMap fun (key, value) =>
    problemIf (!((plan.get "target").any fun t => isText (t.get key) value))
      s!"plan target {key} does not match the payee ref"

/-- Do the minor units of both ends fail to be those that the units convert to? -/
def convertsBadly (toMinor : Int → Except MarketingError Int) (plan : Json) (lo hi : Int) :
    Except MarketingError Bool := do
  let a ← toMinor lo
  if isNumber (plan.get "from_minor") (numberOf a) then
    let b ← toMinor hi
    return !isNumber (plan.get "to_minor") (numberOf b)
  else return true

/-- `Number(plan.to_minor) - Number(plan.from_minor)`. -/
def planRaise (coerce : Json → Option ℚ) (plan : Json) : Option ℚ := do
  let b ← toNumber coerce (plan.get "to_minor")
  let a ← toNumber coerce (plan.get "from_minor")
  return roundDouble (b - a)

def amountProblems (coerce : Json → Option ℚ) (row : PlanRow)
    (toMinor : Int → Except MarketingError Int) (plan : Json) : List String :=
  let ends : Except MarketingError (Int × Int) := do
    let lo ← parseProviderInt (plan.get "from") "plan from"
    let hi ← parseProviderInt (plan.get "to") "plan to"
    return (lo, hi)
  match ends with
  | .error e => [e.message]
  | .ok (lo, hi) =>
    problemIf (hi ≤ lo) "plan does not raise the ceiling" ++
      match convertsBadly toMinor plan lo hi with
      | .error e => [e.message]
      | .ok bad =>
        problemIf bad "plan amounts do not convert consistently" ++
          problemIf (planRaise coerce plan ≠ some row.amount_minor)
            "plan raise does not equal the requested amount"

def ceilingPlanProblems (coerce : Json → Option ℚ) (row : PlanRow) (provider : CeilingProvider) :
    List String :=
  let plan := row.payload
  let units := provider.units env
  if !isText (plan.get "plan") "raise_ceiling" then
    ["payload is not a ceiling plan built by the server"]
  else
    problemIf (!isText (plan.get "provider") provider.code)
        "plan provider does not match the request" ++
      problemIf (!isText (plan.get "currency") row.currency)
        "plan currency does not match the request" ++
      (match parseDirectRef provider row.payee_ref with
        | .error e => [e.message]
        | .ok target => targetProblems plan target) ++
      (let field := units.field
       problemIf (!isText (plan.get "field") units.field) s!"plan field must be {field}") ++
      fingerprintProblem plan ++
      amountProblems coerce row (units.toMinor · row.currency) plan

/-- The check of a card plan; that of its fields, `fields`, is left open. -/
def cardPlanProblems (fields : PlanRow → List String) (row : PlanRow) : List String :=
  if !isText (row.payload.get "plan") "issue_card" then
    ["payload is not a card plan built by the server"]
  else fields row

/-- Why a stored plan does not fit its request. -/
def directPlanProblems (coerce : Json → Option ℚ) (cardFields : PlanRow → List String)
    (row : PlanRow) : List String :=
  match row.provider with
  | .metaAds => ceilingPlanProblems env coerce row .metaAds
  | .googleAds => ceilingPlanProblems env coerce row .googleAds
  | .stripeIssuing => cardPlanProblems cardFields row
  | .manual => ["not a direct payment provider"]
  | .webhook => ["not a direct payment provider"]

end WorkflowBoard.Marketing
