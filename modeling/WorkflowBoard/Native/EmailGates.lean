import WorkflowBoard.Native.MarketingMail

/-!
# The gates of a marketing mail (`sendOne` of `modules/marketing/marketing-email.service.ts`)

The rows that `sendOne` reads, what it makes of each of them, and the row of the mail itself. The
contact and its consent are read for every mail. Post, campaign, channel, hold of the list and
sender are read once in a pass of the queue and then taken from its cache. Message texts, audit
and statistics are left out.
-/

namespace WorkflowBoard.Email

open Marketing (CampaignStatus ChannelStatus)

/-! ## Rows -/

structure Contact where
  account_id : String
  status : ContactStatus
  /-- Empty if the contact was erased. -/
  email : String
  timezone : String := "Asia/Seoul"
deriving DecidableEq

structure BrandConsent extends ConsentPeriod where
  status : ContactStatus
  night_consent : Bool := false

inductive PostStatus where
  | draft
  | rejected
  | approved
  | publishing
  | sending
  | published
  | failed
deriving DecidableEq

def PostStatus.text : PostStatus → String
  | .draft => "draft"
  | .rejected => "rejected"
  | .approved => "approved"
  | .publishing => "publishing"
  | .sending => "sending"
  | .published => "published"
  | .failed => "failed"

structure MailCampaign where
  account_id : String
  status : CampaignStatus
deriving DecidableEq

/-- A channel with the settings in its `config`; a setting that is not there is empty. -/
structure MailChannel where
  account_id : String
  status : ChannelStatus
  brand_id : String
  list_name : String := ""
  credential_id : String := ""
  provider : String := ""
deriving DecidableEq

/-- What the credential of a channel decrypts to. -/
structure MarketingSecret where
  provider : String := ""
  api_key : String

structure ChannelSender where
  provider : String
  apiKey : String
  credentialId : String
deriving DecidableEq

/-- The tables that the queue reads and never writes. -/
structure EmailTables where
  contact : String → Option Contact
  /-- By contact, account and brand. -/
  consent : String → String → String → Option BrandConsent
  post : String → Option PostStatus
  campaign : String → Option MailCampaign
  channel : String → Option MailChannel
  /-- Whether the list of an account is on hold. -/
  held : String → String → Bool
  /-- The brands of an account. -/
  brand : String → String → Bool
  /-- None if the credential is missing or cannot be read. -/
  secret : String → String → Option MarketingSecret

inductive SendStatus where
  | queued
  | deferred
  | sending
  | sent
  | failed
  | suppressed
deriving DecidableEq

/-- `status IN ('queued', 'deferred')`. -/
def SendStatus.isWaiting : SendStatus → Bool
  | .queued | .deferred => true
  | _ => false

structure EmailSend where
  account_id : String
  campaign_id : String
  channel_id : String
  post_id : String
  contact_id : String
  brand_id : String
  status : SendStatus := .queued
  attempts : Nat := 0
  next_attempt_at : Date
  provider_message_id : String := ""
  credential_id : String := ""
  error : String := ""
  sent_at : Option Date := none
  updated_at : Date
deriving DecidableEq

/-- A row is one post and contact. -/
def EmailSend.key (r : EmailSend) : String × String := (r.post_id, r.contact_id)

/-- The row as a claim leaves it. -/
def EmailSend.claimed (updated : Date) (r : EmailSend) : EmailSend :=
  { r with status := .sending, updated_at := updated }

/-- The row as `closeStuck` leaves it. -/
def EmailSend.interrupted (updated : Date) (r : EmailSend) : EmailSend :=
  { r with
    status := .failed
    error := "interrupted while sending — not retried (it may have been delivered)"
    updated_at := updated }

/-- What `finish` sets. -/
structure SendWrite where
  status : SendStatus
  error : Option String := none
  next_attempt_at : Option Date := none
  attempts : Option Nat := none
  provider_message_id : Option String := none
  credential_id : Option String := none
  sent_at : Option Date := none
deriving DecidableEq

def SendWrite.apply (f : SendWrite) (updated : Date) (r : EmailSend) : EmailSend :=
  { r with
    status := f.status
    error := f.error.getD r.error
    next_attempt_at := f.next_attempt_at.getD r.next_attempt_at
    attempts := f.attempts.getD r.attempts
    provider_message_id := f.provider_message_id.getD r.provider_message_id
    credential_id := f.credential_id.getD r.credential_id
    sent_at := f.sent_at.orElse fun _ => r.sent_at
    updated_at := updated }

/-! ## Gates -/

def batchSize : Nat := 50

def maxAttempts : Nat := 3

def retryMs : Int := 10 * 60000

def stuckSendingMs : Int := 10 * 60000

def pauseRecheckMs : Int := 60 * 60000

def listHoldDeferPrefix : String := "deferred: the list is on hold"

/-- A row that was deferred for a hold of its list is due when the hold is released. -/
def EmailSend.released (channels : List String) (now updated : Date) (r : EmailSend) : EmailSend :=
  if r.channel_id ∈ channels ∧ r.status = .deferred ∧
      listHoldDeferPrefix.toList.isPrefixOf r.error.toList then
    { r with next_attempt_at := now, updated_at := updated }
  else r

/-- What a pass has read once for all of its rows, newest first. -/
structure PassCache where
  posts : List (String × Option PostStatus) := []
  campaigns : List (String × Option MailCampaign) := []
  channels : List (String × Option MailChannel) := []
  heldLists : List ((String × String) × Bool) := []
  senders : List (String × Option ChannelSender) := []

/-- What the cache has for the key, or else what the store has, which is kept. -/
def cached {κ α : Type} [DecidableEq κ] (entries : List (κ × α)) (key : κ) (read : α) :
    α × List (κ × α) :=
  match entries.find? (·.1 = key) with
  | some entry => (entry.2, entries)
  | none => (read, (key, read) :: entries)

/-- `MarketingContactService.consentFor`. -/
def EmailTables.consentFor (t : EmailTables) (contactId accountId brandId : String) :
    Option BrandConsent :=
  if brandId = "" ∨ accountId = "" ∨ contactId = "" then none
  else t.consent contactId accountId brandId

/-- `MarketingListHoldService.active`. -/
def EmailTables.listHeld (t : EmailTables) (accountId listName : String) : Bool :=
  accountId ≠ "" && listName ≠ "" && t.held accountId listName

/-- `senderFor`; none if it throws. -/
def EmailTables.senderFor (t : EmailTables) (c : MailChannel) : Option ChannelSender :=
  if c.brand_id = "" || !t.brand c.brand_id c.account_id then none
  else
    (t.secret c.credential_id c.account_id).bind fun secret =>
      let provider := (if secret.provider = "" then c.provider else secret.provider).toLower
      if secret.api_key = "" ∨ provider = "" then none
      else some { provider, apiKey := secret.api_key, credentialId := c.credential_id }

/-- Where `sendOne` is with a row. Each gate hands on what the later ones use. -/
inductive SendStage where
  | contact
  | consent (c : Contact)
  | post
  | campaign
  | channel (campaign : MailCampaign)
  | list (campaign : MailCampaign) (channel : MailChannel)
  | sender (channel : MailChannel)
  | composing (sender : ChannelSender)
  /-- The request is underway, the `call`-th of all. -/
  | calling (sender : ChannelSender) (call : Nat)
  | finishing (f : SendWrite)
deriving DecidableEq

def suppress (error : String) : SendStage :=
  .finishing { status := .suppressed, error := some error }

def defer (t : Date) (error : String) : SendStage :=
  .finishing { status := .deferred, next_attempt_at := some t, error := some error }

def fail (error : String) : SendStage := .finishing { status := .failed, error := some error }

/-- `String(value || 'gone')` in the text of a row that is not taken further. -/
def orGone {α : Type} (text : α → String) (value : Option α) : String :=
  (value.map text).getD "gone"

/-- The gate of the contact and the one of its consent. -/
def contactGate (t : EmailTables) (row : EmailSend) : SendStage :=
  match t.contact row.contact_id with
  | some c =>
    if c.account_id = row.account_id ∧ c.status = .subscribed ∧ c.email ≠ "" then .consent c
    else suppress ("contact is " ++ c.status.text)
  | none => suppress "contact is gone"

def consentGate (localHour : LocalHour) (now : Date) (t : EmailTables) (row : EmailSend)
    (c : Contact) : SendStage :=
  match t.consentFor row.contact_id row.account_id row.brand_id with
  | some k =>
    if k.status = .subscribed ∧ consentFresh k.toConsentPeriod now then
      if !k.night_consent && isNightFor localHour now (zoneOf c.timezone) then
        defer (nextSendableAt localHour now (zoneOf c.timezone))
          "deferred: night hours in the recipient's timezone"
      else .post
    else suppress "brand consent is missing, withdrawn or older than 2 years"
  | none => suppress "brand consent is missing, withdrawn or older than 2 years"

/-- The gates behind the consent, on what the pass has in its cache. -/
def postGate (post : Option PostStatus) : SendStage :=
  if post = some .sending then .campaign
  else suppress ("post is " ++ orGone PostStatus.text post)

def campaignGate (campaign : Option MailCampaign) : SendStage :=
  match campaign with
  | some c => if c.status = .archived then suppress "the campaign is archived" else .channel c
  | none => suppress "the campaign is gone"

def channelGate (now : Date) (row : EmailSend) (campaign : MailCampaign)
    (channel : Option MailChannel) : SendStage :=
  match channel with
  | some c =>
    if row.brand_id = "" ∨ c.brand_id ≠ row.brand_id ∨ c.account_id ≠ row.account_id then
      suppress "the sender brand changed or is unassigned — approve a new send"
    else if campaign.status ≠ .active then
      defer (now + pauseRecheckMs) ("deferred: the campaign is " ++ campaign.status.text)
    else if c.status = .paused then
      defer (now + pauseRecheckMs) "deferred: the channel is paused"
    else if c.list_name = "" then .sender c
    else .list campaign c
  | none => suppress "the sender brand changed or is unassigned — approve a new send"

def listGate (now : Date) (channel : MailChannel) (held : Bool) : SendStage :=
  if held then
    defer (now + pauseRecheckMs) (listHoldDeferPrefix ++ " (spam complaint rate): \"" ++
      channel.list_name ++ "\" — a person must review and release it")
  else .sender channel

def senderGate (sender : Option ChannelSender) : SendStage :=
  match sender with
  | some s => .composing s
  | none => fail "the email channel is gone or misconfigured"

/-- The next read of `sendOne` and what comes of it, up to the call of the provider. -/
def sendOneNext (localHour : LocalHour) (now : Date) (t : EmailTables) (row : EmailSend)
    (cache : PassCache) : SendStage → Option (SendStage × PassCache)
  | .contact => some (contactGate t row, cache)
  | .consent c => some (consentGate localHour now t row c, cache)
  | .post =>
    let post := cached cache.posts row.post_id (t.post row.post_id)
    some (postGate post.1, { cache with posts := post.2 })
  | .campaign =>
    let campaign := cached cache.campaigns row.campaign_id (t.campaign row.campaign_id)
    some (campaignGate campaign.1, { cache with campaigns := campaign.2 })
  | .channel campaign =>
    let channel := cached cache.channels row.channel_id (t.channel row.channel_id)
    some (channelGate now row campaign channel.1, { cache with channels := channel.2 })
  | .list campaign channel =>
    let held := cached cache.heldLists (campaign.account_id, channel.list_name)
      (t.listHeld campaign.account_id channel.list_name)
    some (listGate now channel held.1, { cache with heldLists := held.2 })
  | .sender channel =>
    let sender := cached cache.senders row.channel_id
      (if channel.status = .active then t.senderFor channel else none)
    some (senderGate sender.1, { cache with senders := sender.2 })
  | .composing _ | .calling _ _ | .finishing _ => none

/-- The write that records the outcome of a call. -/
def outcomeWrite (now clock : Date) (row : EmailSend) (credentialId : String)
    (outcome : EmailOutcome) : SendWrite :=
  match outcome with
  | .sent message_id =>
    { status := .sent, sent_at := some clock, provider_message_id := some message_id
      credential_id := some credentialId, error := some "", attempts := some (row.attempts + 1) }
  | .retry error =>
    if row.attempts + 1 < maxAttempts then
      { status := .deferred, attempts := some (row.attempts + 1)
        next_attempt_at := some (now + retryMs * (row.attempts + 1))
        credential_id := some credentialId, error := some error }
    else
      { status := .failed, attempts := some (row.attempts + 1)
        credential_id := some credentialId, error := some error }
  | .failed error =>
    { status := .failed, attempts := some (row.attempts + 1)
      credential_id := some credentialId, error := some error }

end WorkflowBoard.Email
