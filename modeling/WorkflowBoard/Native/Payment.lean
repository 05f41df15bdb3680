import WorkflowBoard.Native.Budget

/-!
# Payment routes (`common/marketing/payment-routes.ts`)

How a payee of a campaign is paid, and whether a spend request still has the route
it was requested with. A payee with a direct provider has its own route, every other
payee is paid the campaign's way. Card requests are also compared with the card
controls of the payee as they are now.
-/

namespace WorkflowBoard.Marketing

inductive PaymentProvider where
  | manual
  | webhook
  | metaAds
  | googleAds
  | stripeIssuing
deriving DecidableEq

inductive ProviderKind where
  | ceiling
  | card
deriving DecidableEq

namespace PaymentProvider

def label : PaymentProvider → String
  | .manual => "manual"
  | .webhook => "webhook"
  | .metaAds => "Meta Ads"
  | .googleAds => "Google Ads"
  | .stripeIssuing => "Stripe Issuing"

/-- The entry of `DIRECT_PROVIDER_SPECS`: kind and exclusiveness. -/
def directSpec : PaymentProvider → Option (ProviderKind × Bool)
  | .metaAds => some (.ceiling, true)
  | .googleAds => some (.ceiling, true)
  | .stripeIssuing => some (.card, false)
  | .manual => none
  | .webhook => none

def isDirect (p : PaymentProvider) : Bool := p.directSpec.isSome

def isCard (p : PaymentProvider) : Bool := p.directSpec.any (·.1 = .card)

/-- The server itself executes an approved request of this provider. -/
def isAutomatic (p : PaymentProvider) : Bool := p = .webhook || p.isDirect

end PaymentProvider

/-- The part of an issue-card plan that is compared with the payee. -/
structure CardPlan where
  card_id : Option String
  limit_minor : Nat
  single_use : Bool
  allowed_categories : List String

/-- The payload of a request: its canonical text and, when its `plan` is
    `issue_card`, the card plan. -/
structure Payload where
  text : String
  card : Option CardPlan

structure Payee where
  name : String
  ref : String
  provider : Option PaymentProvider
  credential_id : Option Uuid
  card_single_use : Option Bool
  card_id : Option String
  card_categories : List String
  card_max_minor : Option Nat
deriving DecidableEq

structure PaymentRoute where
  provider : PaymentProvider
  credential_id : Option Uuid
  ref : String

/-- The fields of a request that the approver's hash covers. -/
structure SpendFields where
  campaign_id : Uuid
  channel_id : Uuid
  amount_minor : Nat
  currency : String
  payee : String
  payee_ref : String
  purpose : String
  provider : PaymentProvider
  provider_credential_id : Option Uuid
  payload : Payload

/-- What the service takes from the runtime: Unicode case mapping, and the hex SHA-256
    of the canonical JSON of a request's fields. -/
structure SpendEnv where
  toLowerCase : String → String
  toUpperCase : String → String
  spendPayloadHash : SpendFields → String

/-- A three-letter currency code. -/
def normalizeCurrency (env : SpendEnv) (value : String) (label : String) :
    Except String String := do
  let code := env.toUpperCase (trimText value)
  require (code.toList.length = 3 && code.toList.all Char.isUpper)
    s!"{label} must be a 3-letter ISO 4217 code (e.g. KRW, USD)"
  return code

/-- Payee names are compared without case. -/
def findPayee (env : SpendEnv) (payees : List Payee) (name : String) : Option Payee :=
  payees.find? fun p => env.toLowerCase p.name == env.toLowerCase (trimText name)

def payeeRoute (paymentProvider : PaymentProvider) (paymentCredential : Option Uuid)
    (payee : Payee) : PaymentRoute :=
  match payee.provider with
  | some p =>
    if p.isDirect then ⟨p, payee.credential_id, payee.ref⟩
    else campaignRoute
  | none => campaignRoute
where
  campaignRoute : PaymentRoute :=
    ⟨paymentProvider, if paymentProvider = .webhook then paymentCredential else none, payee.ref⟩

def sameRoute (row : SpendFields) (route : PaymentRoute) : Bool :=
  row.provider == route.provider && row.provider_credential_id == route.credential_id &&
    row.payee_ref == route.ref

/-- `CARD_CATEGORY_PATTERN`: a lower-case word of 2 to 80 characters. -/
def isCardCategory (name : String) : Bool :=
  match name.toList with
  | [] => false
  | c :: cs =>
    c.isLower && 1 ≤ cs.length && cs.length ≤ 79 &&
      cs.all fun d => d.isLower || d.isDigit || d == '_'

def maxCardCategories : Nat := 20

/-- The sorted set of category names; `none` where the source throws. -/
def normalizeCardCategories (env : SpendEnv) (value : List String) : Option (List String) :=
  let names := (value.map fun item => env.toLowerCase (trimText item)).filter (· ≠ "")
  if names.all isCardCategory then
    let out := names.dedup
    if out.length ≤ maxCardCategories then some (out.mergeSort (· ≤ ·)) else none
  else
    none

/-- Why the card controls of the payee no longer fit the card plan of a request. -/
def directPayeeProblem (env : SpendEnv) (row : SpendFields) (payee : Payee) : Option String :=
  if !row.provider.isCard then none else
  match row.payload.card with
  | none => none
  | some plan =>
    if plan.card_id.getD "" ≠ payee.card_id.getD "" then
      some "the payee card changed since this request — ask for a new request"
    else
      match normalizeCardCategories env payee.card_categories with
      | none => some "the payee's card categories are invalid"
      | some categories =>
        if plan.single_use ≠ (payee.card_single_use ≠ some false) ∨
            ",".intercalate plan.allowed_categories ≠ ",".intercalate categories then
          some ("the payee's card controls (single-use or categories) changed since this " ++
            "request — ask for a new request")
        else if payee.card_max_minor.any (plan.limit_minor > ·) then
          some "the card limit is now above the payee's per-card maximum — ask for a new request"
        else
          none

/-- `/^ic_[A-Za-z0-9]+$/`. -/
def isCardId (s : String) : Bool :=
  match s.toList with
  | 'i' :: 'c' :: '_' :: c :: cs => (c :: cs).all Char.isAlphanum
  | _ => false

end WorkflowBoard.Marketing
