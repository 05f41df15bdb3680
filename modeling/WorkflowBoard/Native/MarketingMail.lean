import WorkflowBoard.Native.Ledger

/-!
# Rules and rows of marketing mail (`common/marketing/email.ts`, `marketing-email-providers.ts`)

The period of a consent, the night hours, and what the adapter of a provider makes of its answer.
The hour of an instant in a time zone is a parameter: the runtime takes it from its zone data.
Text and headers of a mail are left out.
-/

namespace WorkflowBoard.Email

/-! ## Consent -/

inductive ContactStatus where
  | subscribed
  | unsubscribed
  | bounced
  | complained
  | erased
deriving DecidableEq

def ContactStatus.text : ContactStatus → String
  | .subscribed => "subscribed"
  | .unsubscribed => "unsubscribed"
  | .bounced => "bounced"
  | .complained => "complained"
  | .erased => "erased"

structure ConsentPeriod where
  consent_at : Date
  consent_renewed_at : Option Date := none

/-- `CONSENT_MAX_AGE_MS`, 729 days. -/
def consentMaxAgeMs : Int := 729 * 24 * 60 * 60000

def consentAnchor (c : ConsentPeriod) : Date :=
  match c.consent_renewed_at with
  | some renewed => if c.consent_at < renewed then renewed else c.consent_at
  | none => c.consent_at

def consentDeadline (c : ConsentPeriod) : Date := consentAnchor c + consentMaxAgeMs

def consentFresh (c : ConsentPeriod) (now : Date) : Bool := now ≤ consentDeadline c

/-! ## Night hours -/

/-- The hour of an instant in a time zone. -/
abbrev LocalHour := Date → String → Nat

def isNightFor (localHour : LocalHour) (t : Date) (timezone : String) : Bool :=
  21 ≤ localHour t timezone || localHour t timezone < 8

/-- The end of the night, looked for in steps of a quarter of an hour. -/
def nextSendableAt (localHour : LocalHour) (t : Date) (timezone : String) : Date :=
  go (24 * 4 + 1) t
where
  go : Nat → Date → Date
    | 0, t => t
    | n + 1, t =>
      if isNightFor localHour t timezone then go n (t / 900000 * 900000 + 900000) else t

/-- `contact.timezone || 'Asia/Seoul'`. -/
def zoneOf (timezone : String) : String := if timezone = "" then "Asia/Seoul" else timezone

/-! ## Providers -/

inductive EmailOutcome where
  | sent (message_id : String)
  | failed (error : String)
  | retry (error : String)
deriving DecidableEq

def EmailOutcome.isRetry : EmailOutcome → Bool
  | .retry _ => true
  | _ => false

/-- What comes of the request. `messageId` is the header or the id in the body. -/
inductive ProviderAnswer where
  | timedOut
  | unreachable (message : String)
  | answered (status : Nat) (messageId text : String)

/-- The providers that a request is sent to. -/
def isKnownProvider (provider : String) : Bool := provider = "resend" || provider = "sendgrid"

def unknownProvider (provider : String) : EmailOutcome :=
  .failed ("unknown email provider \"" ++ provider ++ "\"")

/-- Where a mail may have been accepted, only the provider that knows a repeated key is asked
    again. -/
def unclear (provider error : String) : EmailOutcome :=
  if provider = "resend" then .retry error
  else .failed (error ++ " — not retried (it may have been delivered)")

/-- `sendEmail`, behind the request. -/
def sendEmail (provider : String) : ProviderAnswer → EmailOutcome
  | .timedOut => unclear provider "email provider timed out"
  | .unreachable message =>
    unclear provider ("email provider unreachable: " ++ sliceText 200 message)
  | .answered status messageId text =>
    let http := "HTTP " ++ toString status
    let detail := ": " ++ sliceText 300 text
    if 200 ≤ status ∧ status < 300 then .sent (sliceText 200 messageId)
    else if status = 429 then .retry ("email provider rate-limited (HTTP 429)" ++ detail)
    else if 400 ≤ status ∧ status < 500 then
      .failed ("email provider refused (" ++ http ++ ")" ++ detail)
    else unclear provider ("email provider answered " ++ http ++ detail)

end WorkflowBoard.Email
