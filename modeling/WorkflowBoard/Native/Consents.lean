import WorkflowBoard.Native.MarketingMail

/-!
# Contacts and consents (`modules/marketing/marketing-contact.service.ts`)

The rows of contacts, of their consents for the brands of an account and of the notices that
confirm a consent, and the writes of `MarketingContactService` to them. A row is known by its place
in its table; no call deletes one. What an import checks of an entry before it reads anything, and
audit, are left out.
-/

namespace WorkflowBoard.Consents

open Email (ContactStatus ConsentPeriod consentDeadline consentFresh)

/-! ## Rows -/

structure Evidence extends ConsentPeriod where
  consent_method : String
  consent_source : String
  consent_text_version : String := ""
  consent_ip : String := ""
  night_consent : Bool := false

structure ContactRow extends Evidence where
  account_id : String
  email : Option String
  email_hash : String
  name : String := ""
  lists : List String := []
  status : ContactStatus := .subscribed
  legacy_consent_migrated : Bool := false
  country : String := ""
  timezone : String := "Asia/Seoul"
  unsubscribe_token : String
  unsubscribed_at : Option Date := none
  unsubscribe_source : String := ""

structure ConsentRow extends Evidence where
  account_id : String
  contact_id : Nat
  brand_id : String
  status : ContactStatus := .subscribed
  unsubscribe_token : String
  unsubscribed_at : Option Date := none
  unsubscribe_source : String := ""

inductive NoticePolicy where
  | keep
  | lapse
deriving DecidableEq

inductive NoticeStatus where
  | queued
  | deferred
  | sending
  | sent
  | failed
  | skipped
deriving DecidableEq

inductive BounceType where
  | hard
  | soft
  | suppressed
deriving DecidableEq

/-- A notice of a brand; those from before there were brands are left out, and so are its channel,
    its credential and the id and note of the provider. -/
structure Notice where
  account_id : String
  contact_id : Nat
  brand_id : String
  consent_id : Nat
  due_at : Date
  status : NoticeStatus := .queued
  policy : Option NoticePolicy := none
  settings_version : Nat := 0
  attempts : Nat := 0
  next_attempt_at : Date
  token : String
  sent_at : Option Date := none
  kept_at : Option Date := none
  renewed_at : Option Date := none
  bounce_type : Option BounceType := none
  error : String := ""
  updated_at : Date
deriving DecidableEq

structure NoticeSetting where
  enabled : Bool
  lead_days : Nat
  on_no_response : NoticePolicy
  version : Nat

structure ConsentStore where
  contacts : List ContactRow := []
  consents : List ConsentRow := []
  notices : List Notice := []
  /-- Id and account of each brand. -/
  brands : List (String × String) := []
  settings : String → Option NoticeSetting := fun _ => none

/-! ## What a write leaves of a row -/

def ContactRow.withdrawn (status : ContactStatus) (source : String) (now : Date) (c : ContactRow) :
    ContactRow :=
  { c with status, unsubscribed_at := some now, unsubscribe_source := source }

def ConsentRow.withdrawn (status : ContactStatus) (source : String) (now : Date) (k : ConsentRow) :
    ConsentRow :=
  { k with status, unsubscribed_at := some now, unsubscribe_source := source }

/-- The contact as `erase` leaves it; `row` is what it has read before. -/
def ContactRow.erased (row : ContactRow) (token : String) (now : Date) (c : ContactRow) :
    ContactRow :=
  { c with
    email := none, name := "", consent_ip := "", status := .erased, lists := []
    unsubscribed_at := some (row.unsubscribed_at.getD now)
    unsubscribe_source := if row.unsubscribe_source = "" then "manual" else row.unsubscribe_source
    unsubscribe_token := token }

def ConsentRow.erased (k : ConsentRow) : ConsentRow :=
  { k with consent_ip := "", status := .erased }

/-- The consent under evidence that is newer than its own. -/
def ConsentRow.imported (e : Evidence) (k : ConsentRow) : ConsentRow := { k with toEvidence := e }

/-- `RECONFIRM_CONSENT_METHOD`, by the notice at `place`. -/
def ConsentRow.kept (place version : Nat) (now : Date) (k : ConsentRow) : ConsentRow :=
  { k with
    consent_at := now
    consent_method := "reconfirm"
    consent_source := "consent-notice:" ++ toString place
    consent_text_version := "consent-notice-v" ++ toString version
    consent_ip := ""
    consent_renewed_at := none }

def ConsentRow.renewed (due : Date) (k : ConsentRow) : ConsentRow :=
  { k with consent_renewed_at := some due }

/-! ## Reads -/

namespace ConsentStore

def hasBrand (t : ConsentStore) (brandId accountId : String) : Bool :=
  t.brands.any fun b => b.1 = brandId && b.2 = accountId

def findContact (t : ConsentStore) (p : ContactRow → Bool) : Option Nat := t.contacts.findIdx? p

/-- `consentFor`. -/
def consentFor (t : ConsentStore) (contactId : Nat) (accountId brandId : String) : Option Nat :=
  t.consents.findIdx? fun k =>
    k.contact_id = contactId && k.account_id = accountId && k.brand_id = brandId

/-! ## `import`, for one entry -/

/-- An entry that has passed its checks, with the tokens of the rows it may make. -/
structure ImportEntry where
  account_id : String
  brand_id : String
  email : String
  name : String := ""
  lists : List String
  country : String := ""
  timezone : String := "Asia/Seoul"
  /-- Without a renewal. -/
  evidence : Evidence
  contactToken : String
  consentToken : String

/-- The contact of an entry, known by the hash of its address. -/
def ImportEntry.existing (e : ImportEntry) (emailHash : String → String) (t : ConsentStore) :
    Option Nat :=
  t.findContact fun c => c.account_id = e.account_id && c.email_hash = emailHash e.email

def ImportEntry.contact (e : ImportEntry) (emailHash : String → String) : ContactRow :=
  { e.evidence with
    account_id := e.account_id, email := some e.email, email_hash := emailHash e.email
    name := e.name, lists := e.lists, country := e.country, timezone := e.timezone
    legacy_consent_migrated := true, unsubscribe_token := e.contactToken }

/-- Lists, name, country and zone of a contact under an entry; `row` is what was read before. -/
def ImportEntry.identify (e : ImportEntry) (row c : ContactRow) : ContactRow :=
  { c with
    lists := (row.lists ++ e.lists).dedup
    name := if e.name = "" then c.name else e.name
    country := if e.country = "" then c.country else e.country
    timezone := e.timezone }

def ImportEntry.consent (e : ImportEntry) (contactId : Nat) : ConsentRow :=
  { e.evidence with
    account_id := e.account_id, contact_id := contactId, brand_id := e.brand_id
    unsubscribe_token := e.consentToken }

/-- Insert a contact; none if a unique index forbids it. -/
def insertContact (t : ConsentStore) (c : ContactRow) : Option ConsentStore :=
  if t.contacts.any fun o => (o.account_id = c.account_id && o.email_hash = c.email_hash) ||
      o.unsubscribe_token = c.unsubscribe_token then none
  else some { t with contacts := t.contacts ++ [c] }

/-- Insert a consent; none if a unique index forbids it. -/
def insertConsent (t : ConsentStore) (k : ConsentRow) : Option ConsentStore :=
  if t.consents.any fun o => (o.account_id = k.account_id && o.contact_id = k.contact_id &&
      o.brand_id = k.brand_id) || o.unsubscribe_token = k.unsubscribe_token then none
  else some { t with consents := t.consents ++ [k] }

/-- The contact of an entry in its transaction, which fails if the contact that was found is not
    subscribed any more. -/
def saveContact (t : ConsentStore) (emailHash : String → String) (e : ImportEntry)
    (existing : Option (Nat × ContactRow)) : Option (Nat × ConsentStore) :=
  match existing with
  | some (id, row) =>
    if (t.contacts[id]?).any fun c => c.account_id = e.account_id && c.status = .subscribed then
      some (id, { t with contacts := t.contacts.modify id (e.identify row) })
    else none
  | none => (t.insertContact (e.contact emailHash)).map fun t' => (t.contacts.length, t')

/-- Evidence of an entry that is newer than a consent and than its renewal. -/
def isNewer (e : Evidence) (k : ConsentRow) : Bool :=
  k.status = .subscribed && k.consent_at < e.consent_at &&
    k.consent_renewed_at.all (· < e.consent_at)

/-- The transaction of an entry; `prior` is the consent that was read before. -/
def saveImport (t : ConsentStore) (emailHash : String → String) (e : ImportEntry)
    (existing : Option (Nat × ContactRow)) (prior : Option (Nat × ConsentRow)) :
    Option ConsentStore :=
  (t.saveContact emailHash e existing).bind fun (contactId, t) =>
    match prior with
    | some (id, row) =>
      if row.consent_at < e.evidence.consent_at && (t.consents[id]?).any (isNewer e.evidence) then
        some { t with consents := t.consents.modify id (·.imported e.evidence) }
      else some t
    | none => t.insertConsent (e.consent contactId)

/-! ## `migrateLegacy` -/

/-- The consent that the evidence of a contact becomes. -/
def legacyConsent (c : ContactRow) (contactId : Nat) (brandId token : String) : ConsentRow :=
  { c.toEvidence with
    account_id := c.account_id, contact_id := contactId, brand_id := brandId, status := c.status
    unsubscribed_at := c.unsubscribed_at, unsubscribe_source := c.unsubscribe_source
    unsubscribe_token := token }

/-- One contact of a migration. -/
def migrateContact (t : ConsentStore) (accountId brandId : String) (tokens : Nat → String)
    (id : Nat) : Option ConsentStore :=
  match t.contacts[id]? with
  | some c =>
    if c.account_id ≠ accountId then none
    else if c.legacy_consent_migrated then some t
    else
      let t := { t with contacts := t.contacts.modify id fun c =>
        { c with legacy_consent_migrated := true } }
      if (t.consentFor id accountId brandId).isSome then some t
      else t.insertConsent (legacyConsent c id brandId (tokens id))
  | none => none

/-- The transaction of a migration, contact by contact; it fails as a whole. -/
def migrateContacts (t : ConsentStore) (accountId brandId : String) (tokens : Nat → String) :
    List Nat → Option ConsentStore
  | [] => some t
  | id :: ids =>
    (t.migrateContact accountId brandId tokens id).bind fun t =>
      t.migrateContacts accountId brandId tokens ids

/-! ## Withdrawals and erasure -/

/-- `UPDATE … SET status … WHERE id AND status IN (…)` on a contact. -/
def withdrawContact (t : ConsentStore) (id : Nat) (allowed : ContactStatus → Bool)
    (status : ContactStatus) (source : String) (now : Date) : ConsentStore :=
  { t with contacts := t.contacts.modify id fun c =>
      if allowed c.status then c.withdrawn status source now else c }

def withdrawConsent (t : ConsentStore) (id : Nat) (allowed : ContactStatus → Bool)
    (status : ContactStatus) (source : String) (now : Date) : ConsentStore :=
  { t with consents := t.consents.modify id fun k =>
      if allowed k.status then k.withdrawn status source now else k }

/-- The transaction of `erase`. -/
def eraseContact (t : ConsentStore) (id : Nat) (accountId token : String) (row : ContactRow)
    (now : Date) : ConsentStore :=
  { t with
    contacts := t.contacts.modify id fun c =>
      if c.account_id = accountId then row.erased token now c else c
    consents := t.consents.map fun k =>
      if k.contact_id = id ∧ k.account_id = accountId then k.erased else k }

end ConsentStore

/-- `SUPPRESS_FROM` of `marketing-email-events.service.ts`: the statuses that a status follows. -/
def suppressFrom (status current : ContactStatus) : Bool :=
  match status with
  | .bounced | .unsubscribed => current = .subscribed
  | .complained => current = .subscribed || current = .bounced
  | .subscribed | .erased => false

end WorkflowBoard.Consents
