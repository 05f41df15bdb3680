import WorkflowBoard.ForStd.Transition
import WorkflowBoard.Native.Consents

/-!
# Notices that confirm a consent (`modules/marketing/marketing-consent-notice.service.ts`)

The rules of `common/marketing/consent-notice.ts`, and the statements of `keep`, `renewDue`,
`planAccount` and `sendOne` on the tables. The channel that sends a notice and the provider are
outside: what they answer is given.
-/

namespace WorkflowBoard.Consents

open Email (ContactStatus ConsentPeriod consentDeadline LocalHour isNightFor nextSendableAt zoneOf
  EmailOutcome)

/-! ## Rules -/

def dayMs : Int := 24 * 60 * 60000

/-- `CONSENT_KEEP_GRACE_MS`. -/
def keepGraceMs : Int := 30 * dayMs

/-- `CONSENT_NOTICE_SEND_MARGIN_MS`. -/
def sendMarginMs : Int := 10 * 60000

def maxLeadDays : Nat := 90

def minLeadDays : Nat := 7

def recheckMs : Int := 60 * 60000

def renewAheadMs : Int := 60 * 60000

def renewLookbackMs : Int := 30 * dayMs

def retryMs : Int := 10 * 60000

def stuckSendingMs : Int := 10 * 60000

def maxAttempts : Nat := 3

def sameConsentCycle (a b : Date) : Bool := a - b < dayMs && b - a < dayMs

/-- The deadline of a consent if its notice is due. -/
def consentNoticeDueAt (c : ConsentPeriod) (leadDays : Nat) (now : Date) : Option Date :=
  let deadline := consentDeadline c
  if deadline - sendMarginMs ≤ now ∨ now < deadline - leadDays * dayMs then none
  else some deadline

/-! ## What a write leaves of a notice -/

namespace Notice

/-- `closeStuck`. -/
def interrupted (updated : Date) (n : Notice) : Notice :=
  if n.status = .sending then
    { n with
      status := .failed
      error := "interrupted while sending — not retried (it may have been delivered)"
      updated_at := updated }
  else n

def claimed (updated : Date) (n : Notice) : Notice :=
  { n with status := .sending, updated_at := updated }

/-- What is caught on the way to the provider. -/
def putOff (t : Date) (error : String) (updated : Date) (n : Notice) : Notice :=
  if n.status = .sending then
    { n with
      status := .deferred, next_attempt_at := t + recheckMs, error := "deferred: " ++ error
      updated_at := updated }
  else n

/-- A soft bounce does not overwrite another one. -/
def bounced (type : BounceType) (updated : Date) (n : Notice) : Notice :=
  if n.bounce_type = none ∨ (n.bounce_type = some .soft ∧ type ≠ .soft) then
    { n with bounce_type := some type, updated_at := updated }
  else n

def retried (accountId : String) (now : Date) (n : Notice) : Notice :=
  if n.account_id = accountId ∧ n.status = .failed ∧ now + sendMarginMs < n.due_at then
    { n with
      status := .queued, attempts := 0, next_attempt_at := now, error := "", updated_at := now }
  else n

def keptAt (now : Date) (n : Notice) : Notice := { n with kept_at := some now }

def renewedAt (now : Date) (n : Notice) : Notice := { n with renewed_at := some now }

end Notice

namespace ConsentStore

/-- `contact.status === 'subscribed' && contact.email`, in the account. -/
def isMailable (t : ConsentStore) (contactId : Nat) (accountId : String) : Bool :=
  (t.contacts[contactId]?).any fun c =>
    c.account_id = accountId && c.status = .subscribed && c.email.any (· ≠ "")

/-- The subscribed consent of a notice. -/
def noticeConsent (t : ConsentStore) (n : Notice) : Option ConsentRow :=
  (t.consents[n.consent_id]?).filter fun k =>
    k.account_id = n.account_id && k.contact_id = n.contact_id && k.brand_id = n.brand_id &&
      k.status = .subscribed

/-- `consentForNotice`. -/
def consentForNotice (t : ConsentStore) (n : Notice) : Option ConsentRow :=
  if n.brand_id ≠ "" && t.hasBrand n.brand_id n.account_id then t.noticeConsent n else none

/-! ## `keep` -/

/-- A notice of the cycle of the consent, or of the one it was renewed from. -/
def isOfCycle (k : ConsentRow) (n : Notice) : Bool :=
  sameConsentCycle (consentDeadline k.toConsentPeriod) n.due_at ||
    k.consent_renewed_at.any (sameConsentCycle · n.due_at)

/-- The transaction of a click on the link of the notice at `place`, which was read as `n`; none if
    it is refused or the notice was kept before. -/
def keepConsent (t : ConsentStore) (place : Nat) (n : Notice) (now : Date) : Option ConsentStore :=
  if t.isMailable n.contact_id n.account_id then
    (t.noticeConsent n).bind fun k =>
      if (t.notices[place]?).any (·.kept_at.isNone) && isOfCycle k n &&
          now ≤ n.due_at + keepGraceMs then
        some { t with
          notices := t.notices.modify place (·.keptAt now)
          consents := t.consents.modify n.consent_id (·.kept place n.settings_version now) }
      else none
  else none

/-! ## `renewDue` -/

/-- What the query of `renewDue` selects. -/
def isRenewable (now : Date) (n : Notice) : Bool :=
  n.status = .sent && n.policy = some .keep && n.brand_id ≠ "" && n.renewed_at.isNone &&
    n.kept_at.isNone && n.bounce_type.isNone && n.due_at ≤ now + renewAheadMs &&
      now - renewLookbackMs < n.due_at

def noticeDue (t : ConsentStore) (place : Nat) : Date :=
  ((t.notices[place]?).map (·.due_at)).getD 0

/-- The notices that the query finds, by their due date. -/
def renewable (t : ConsentStore) (now : Date) : List Nat :=
  ((List.range t.notices.length).filter fun i =>
    (t.notices[i]?).any (isRenewable now)).insertionSort
    fun i j => t.noticeDue i ≤ t.noticeDue j

def renewPageSize : Nat := 500

/-- Its page, with the rows as they were read. -/
def renewPage (t : ConsentStore) (now : Date) : List (Nat × Notice) :=
  ((t.renewable now).take renewPageSize).filterMap fun i => (t.notices[i]?).map fun n => (i, n)

/-- The consent that a notice renews, if it is still of its cycle. -/
def consentToRenew (t : ConsentStore) (n : Notice) : Option ConsentRow :=
  (t.consentForNotice n).filter fun k =>
    sameConsentCycle (consentDeadline k.toConsentPeriod) n.due_at

/-- The condition of the update: the consent is as `read` was, and the contact can be mailed. -/
def mayRenew (t : ConsentStore) (n : Notice) (read : ConsentRow) : Bool :=
  ((t.consents[n.consent_id]?).any fun k => k.status = .subscribed &&
    k.consent_at = read.consent_at && k.consent_renewed_at = read.consent_renewed_at) &&
  (t.contacts[n.contact_id]?).any fun c =>
    c.account_id = n.account_id && c.status = .subscribed && c.email.isSome

def renewConsent (t : ConsentStore) (n : Notice) (read : ConsentRow) : ConsentStore :=
  if t.mayRenew n read then
    { t with consents := t.consents.modify n.consent_id (·.renewed n.due_at) }
  else t

def markRenewed (t : ConsentStore) (place : Nat) (now : Date) : ConsentStore :=
  { t with notices := t.notices.modify place (·.renewedAt now) }

/-- A row of `renewDue` on its own, and whether it renews. -/
def renewRow (t : ConsentStore) (now : Date) (place : Nat) (n : Notice) : ConsentStore × Bool :=
  if t.isMailable n.contact_id n.account_id then
    match t.consentToRenew n with
    | some k => ((t.renewConsent n k).markRenewed place now, t.mayRenew n k)
    | none => (t, false)
  else (t, false)

def renewRows (now : Date) : ConsentStore → List (Nat × Notice) → ConsentStore × Nat
  | t, [] => (t, 0)
  | t, (place, n) :: rows =>
    let first := t.renewRow now place n
    let rest := renewRows now first.1 rows
    (rest.1, rest.2 + if first.2 then 1 else 0)

/-- `renewDue` with nothing else going on, and the number it returns. -/
def renewDue (t : ConsentStore) (now : Date) : ConsentStore × Nat :=
  renewRows now t (t.renewPage now)

/-! ## `planAccount` -/

/-- The contacts of an account that can be mailed. -/
def subscribedContacts (t : ConsentStore) (accountId : String) : List Nat :=
  (List.range t.contacts.length).filter fun i => t.isMailable i accountId

/-- A notice that is due: contact, consent, brand and date. -/
structure DueNotice where
  contactId : Nat
  consentId : Nat
  brandId : String
  dueAt : Date

/-- The notices that are due for the consents of the contacts. -/
def dueNotices (t : ConsentStore) (accountId : String) (contacts : List Nat) (leadDays : Nat)
    (now : Date) : List DueNotice :=
  (List.range t.consents.length).filterMap fun i =>
    (t.consents[i]?).bind fun k =>
      if k.account_id = accountId && contacts.contains k.contact_id && k.status = .subscribed &&
          t.hasBrand k.brand_id accountId then
        (consentNoticeDueAt k.toConsentPeriod leadDays now).map fun dueAt =>
          { contactId := k.contact_id, consentId := i, brandId := k.brand_id, dueAt }
      else none

/-- There is a notice of the cycle already. -/
def hasCycle (t : ConsentStore) (d : DueNotice) : Bool :=
  t.notices.any fun n => n.consent_id = d.consentId && sameConsentCycle n.due_at d.dueAt

/-- There is the notice itself. -/
def hasNotice (t : ConsentStore) (d : DueNotice) : Bool :=
  t.notices.any fun n => n.contact_id = d.contactId && n.brand_id = d.brandId && n.due_at = d.dueAt

/-- Insert a notice; none if a unique index forbids it. -/
def insertNotice (t : ConsentStore) (accountId : String) (d : DueNotice) (token : String)
    (now updated : Date) : Option ConsentStore :=
  if t.hasNotice d || t.notices.any (·.token = token) then none
  else some { t with notices := t.notices ++ [{
    account_id := accountId, contact_id := d.contactId, brand_id := d.brandId
    consent_id := d.consentId, due_at := d.dueAt, next_attempt_at := now, token
    updated_at := updated }] }

/-! ## Sending -/

def modifyNotice (t : ConsentStore) (place : Nat) (f : Notice → Notice) : ConsentStore :=
  { t with notices := t.notices.modify place f }

/-- `retryFailed`. -/
def retryFailed (t : ConsentStore) (accountId : String) (now : Date) : ConsentStore :=
  { t with notices := t.notices.map (·.retried accountId now) }

/-- The notices that `closeStuck` finds. -/
def stuckNotices (t : ConsentStore) (now : Date) : List Nat :=
  ((List.range t.notices.length).filter fun i => (t.notices[i]?).any fun n =>
    n.status = .sending && n.updated_at < now - stuckSendingMs).take 500

/-- A notice that is waiting and whose time has come. -/
def isWaiting (now : Date) (n : Notice) : Bool :=
  (n.status = .queued || n.status = .deferred) && n.next_attempt_at ≤ now

def noticeBatch : Nat := 50

/-- The batch of a pass, by due date. -/
def waitingNotices (t : ConsentStore) (now : Date) : List Nat :=
  (((List.range t.notices.length).filter fun i => (t.notices[i]?).any (isWaiting now)).insertionSort
    fun i j => t.noticeDue i ≤ t.noticeDue j).take noticeBatch

end ConsentStore

/-- What `finish` sets. -/
structure NoticeWrite where
  status : NoticeStatus
  error : String := ""
  next_attempt_at : Option Date := none
  sent_at : Option Date := none
  /-- Policy, version of the settings and attempts, behind a call of the provider. -/
  used : Option (NoticePolicy × Nat × Nat) := none

def NoticeWrite.apply (f : NoticeWrite) (updated : Date) (n : Notice) : Notice :=
  { n with
    status := f.status
    error := f.error
    next_attempt_at := f.next_attempt_at.getD n.next_attempt_at
    sent_at := f.sent_at.orElse fun _ => n.sent_at
    policy := (f.used.map (·.1)).orElse fun _ => n.policy
    settings_version := (f.used.map (·.2.1)).getD n.settings_version
    attempts := (f.used.map (·.2.2)).getD n.attempts
    updated_at := updated }

/-- Where `sendOne` is with a notice; `t` is the clock at its start. -/
inductive NoticeStage where
  | contact
  | consent (timezone : String)
  | settings (timezone : String)
  | sender (setting : NoticeSetting)
  | calling (setting : NoticeSetting)
  | finishing (f : NoticeWrite)
  /-- A throw on the way to the provider, which is caught. -/
  | caught (error : String)

def noticeSkip (error : String) : NoticeStage := .finishing { status := .skipped, error }

def noticeDefer (t : Date) (error : String) : NoticeStage :=
  .finishing { status := .deferred, next_attempt_at := some t, error }

/-- The last time a notice may be sent at. -/
def Notice.lastSend (n : Notice) : Date := n.due_at - sendMarginMs

def noticeContactGate (t : ConsentStore) (n : Notice) : NoticeStage :=
  match t.contacts[n.contact_id]? with
  | some c =>
    if t.isMailable n.contact_id n.account_id then .consent c.timezone
    else noticeSkip ("contact is " ++ c.status.text)
  | none => noticeSkip "contact is gone"

def noticeConsentGate (t : ConsentStore) (n : Notice) (start : Date) (timezone : String) :
    NoticeStage :=
  match t.consentForNotice n with
  | some k =>
    if !sameConsentCycle (consentDeadline k.toConsentPeriod) n.due_at then
      noticeSkip "the consent was renewed meanwhile — this notice is no longer needed"
    else if n.lastSend ≤ start then
      noticeSkip "the deadline passed before the notice could be sent — the consent has lapsed"
    else .settings timezone
  | none => noticeSkip "brand consent is absent or withdrawn"

/-- At night a notice waits for the morning, unless that would be too late. -/
def noticeSettingsGate (localHour : LocalHour) (n : Notice) (start : Date) (timezone : String)
    (setting : Option NoticeSetting) : NoticeStage :=
  match setting.filter (·.enabled) with
  | some v =>
    let morning := nextSendableAt localHour start (zoneOf timezone)
    if isNightFor localHour start (zoneOf timezone) && morning < n.lastSend then
      noticeDefer morning "deferred: night hours in the recipient's timezone"
    else .sender v
  | none =>
    noticeDefer (start + recheckMs) "deferred: consent notices are turned off for this account"

/-- What the channels of the account and the public address come to. -/
inductive SenderPick where
  | picked
  | noChannel
  | noAddress (error : String)

def noticeSenderGate (n : Notice) (start : Date) (setting : NoticeSetting) :
    SenderPick → NoticeStage
  | .picked => .calling setting
  | .noChannel => noticeDefer (min (start + recheckMs) n.lastSend)
      ("deferred: no email channel sends to this contact's lists — approve an email channel for " ++
        "one of them")
  | .noAddress error => noticeDefer (start + recheckMs) ("deferred: " ++ error)

/-- The write that records the outcome of a call. -/
def noticeOutcome (n : Notice) (start clock : Date) (setting : NoticeSetting)
    (outcome : EmailOutcome) : NoticeWrite :=
  let used := some (setting.on_no_response, setting.version, n.attempts + 1)
  match outcome with
  | .sent _ => { status := .sent, sent_at := some clock, used }
  | .retry error =>
    if n.attempts + 1 < maxAttempts then
      { status := .deferred, error, used
        next_attempt_at := some (min (start + retryMs * (n.attempts + 1)) n.lastSend) }
    else { status := .failed, error, used }
  | .failed error => { status := .failed, error, used }

end WorkflowBoard.Consents
