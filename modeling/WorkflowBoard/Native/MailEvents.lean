import WorkflowBoard.Native.ListHolds

/-!
# Events of the mail providers (`modules/marketing/marketing-email-events.service.ts`)

What a verified event of a provider does to the sends, the notices, the contacts, their consents
and the holds of lists. An event finds its row by the id that the mail carried, by the message id
of the provider or by the address of its recipient. Signatures, replies and audit are left out.
-/

namespace WorkflowBoard.MailEvents

open Email (ContactStatus SendStatus)
open Consents (BounceType NoticeStatus ContactRow ConsentRow suppressFrom)

inductive EventKind where
  | bounce
  | softBounce
  | complaint
  | unsubscribe
deriving DecidableEq

structure ProviderEvent where
  kind : EventKind
  /-- The provider has not sent the mail, for what it has on record of an earlier one. -/
  repeated : Bool := false
  recipient : String := ""
  send_id : String := ""
  provider_message_id : String := ""
  occurred_at : Date
  detail : String := ""

/-- The columns of a notice that no event writes. -/
structure NoticeKey where
  id : String
  /-- Place of the contact. -/
  contact_id : Nat
  brand_id : String := ""
  credential_id : String := ""
  provider_message_id : String := ""
  status : NoticeStatus := .queued
  created_at : Date

structure NoticeRow extends NoticeKey where
  bounce_type : Option BounceType := none
  event_note : String := ""

structure EventStore where
  sends : List SendRow := []
  notices : List NoticeRow := []
  contacts : List ContactRow := []
  consents : List ConsentRow := []
  holds : List HoldRow := []
  channels : List ChannelRow := []

/-! ## The row of an event -/

/-- What a search for the row of an event reads. -/
structure EventKeys where
  sends : List SendKey
  notices : List NoticeKey
  /-- `email_hash` of each contact. -/
  contacts : List String
  channels : List ChannelRow

def EventStore.keys (t : EventStore) : EventKeys :=
  { sends := t.sends.map (·.toSendKey)
    notices := t.notices.map (·.toNoticeKey)
    contacts := t.contacts.map (·.email_hash)
    channels := t.channels }

inductive Target where
  | send (place : Nat)
  | notice (place : Nat)
deriving DecidableEq

/-- The rows of a table with their places, the newest first; one without a time is the oldest. -/
def newestFirst {α : Type} (stamp : α → Option Date) (rows : List (Nat × α)) : List (Nat × α) :=
  rows.mergeSort fun a b =>
    match stamp a.2, stamp b.2 with
    | some x, some y => decide (y ≤ x)
    | some _, none => true
    | none, some _ => false
    | none, none => true

namespace EventKeys

variable (k : EventKeys) (emailHash : String → String) (credentialId : String)

/-- `legacyChannelIds`. -/
def isLegacyChannel (place : Nat) : Bool :=
  (k.channels[place]?).any fun c => c.isEmail && c.credential_id = credentialId

def inScope (row : SendKey) : Bool :=
  row.credential_id = credentialId ||
    row.credential_id = "" && k.isLegacyChannel credentialId row.channel_id

def isContactOf (address : String) (contact : Nat) : Bool :=
  k.contacts[contact]? = some (emailHash address)

/-- A credential is never the empty string. -/
def recentSendsTo (address : String) (take : Nat) : List (Nat × SendKey) :=
  if address = "" then [] else
    ((newestFirst SendKey.sent_at (k.sends.zipIdx.map fun r => (r.2, r.1))).filter fun r =>
      k.isContactOf emailHash address r.2.contact_id && r.2.status = .sent &&
        k.inScope credentialId r.2).take take

/-- The notices of a contact of the address that the provider was asked for. -/
def noticesTo (address : String) : List (Nat × NoticeKey) :=
  if address = "" then [] else
    (k.notices.zipIdx.map fun r => (r.2, r.1)).filter fun r =>
      k.isContactOf emailHash address r.2.contact_id && r.2.credential_id = credentialId &&
        (r.2.status = .sent || r.2.status = .failed)

def recentNoticeTo (address : String) : Option (Nat × NoticeKey) :=
  (newestFirst (fun n => some n.created_at) (k.noticesTo emailHash credentialId address)).head?

/-- By the id that the mail carried. -/
def findBySendId (id : String) : Option Target :=
  if id = "" then none else
    match k.sends.findIdx? (·.id = id) with
    | some place =>
        if (k.sends[place]?).any (k.inScope credentialId) then some (.send place) else ofNotice
    | none => ofNotice
where
  ofNotice : Option Target :=
    match k.notices.findIdx? (·.id = id) with
    | some place =>
        if (k.notices[place]?).any (·.credential_id = credentialId) then some (.notice place)
        else none
    | none => none

/-- By the message id of the provider; of the sends that have it, five are looked at. -/
def findByMessageId (id : String) : Option Target :=
  if id = "" then none else
    match (((k.sends.zipIdx.map fun r => (r.2, r.1)).filter (·.2.provider_message_id = id)).take
        5).find? (k.inScope credentialId ·.2) with
    | some r => some (.send r.1)
    | none =>
        (k.notices.findIdx? fun n =>
          n.provider_message_id = id && n.credential_id = credentialId).map
          .notice

/-- By the address. An unsubscribe is for one brand, and has to be clear about it. -/
def findByRecipient (kind : EventKind) (address : String) : Option Target :=
  match kind with
  | .unsubscribe =>
      let sends := k.recentSendsTo emailHash credentialId address 10000
      let notices := k.noticesTo emailHash credentialId address
      let brands := (sends.map (·.2.brand_id) ++ notices.map (·.2.brand_id)).dedup
      if brands.length ≠ 1 ∨ sends.length = 10000 then none
      else (sends.head?.map fun r => .send r.1) <|> notices.head?.map fun r => .notice r.1
  | _ =>
      ((k.recentSendsTo emailHash credentialId address 1).head?.map fun r => .send r.1) <|>
        (k.recentNoticeTo emailHash credentialId address).map fun r => .notice r.1

def findTarget (ev : ProviderEvent) : Option Target :=
  k.findBySendId credentialId ev.send_id <|>
    k.findByMessageId credentialId ev.provider_message_id <|>
    k.findByRecipient emailHash credentialId ev.kind ev.recipient

end EventKeys

/-! ## What an event says -/

namespace ProviderEvent

def undelivered (ev : ProviderEvent) : Bool :=
  ev.kind = .bounce || ev.kind = .softBounce || ev.repeated

def bounceType (ev : ProviderEvent) : BounceType :=
  if ev.repeated then .suppressed else if ev.kind = .softBounce then .soft else .hard

/-- The status it gives the contact. -/
def contactStatus (ev : ProviderEvent) : Option ContactStatus :=
  match ev.kind with
  | .bounce => some .bounced
  | .softBounce => none
  | .complaint => some .complained
  | .unsubscribe => some .unsubscribed

/-- `unsubscribe_source`. -/
def source (ev : ProviderEvent) : String :=
  match ev.kind with
  | .bounce => "bounce"
  | .softBounce => "soft_bounce"
  | .complaint => "complaint"
  | .unsubscribe => "provider"

end ProviderEvent

/-- `bounce_type IN (…)`: a soft bounce does not replace another. -/
def bounceFrom (type : BounceType) (current : Option BounceType) : Bool :=
  match type with
  | .soft => current = none
  | _ => current = none || current = some .soft

/-! ## Writes -/

def SendRow.bounce (ev : ProviderEvent) (r : SendRow) : SendRow :=
  if bounceFrom ev.bounceType r.bounce_type then
    { r with
      bounce_type := some ev.bounceType, bounced_at := some ev.occurred_at,
      event_note := ev.detail }
  else r

def SendRow.complain (ev : ProviderEvent) (r : SendRow) : SendRow :=
  if r.complained_at = none then
    { r with complained_at := some ev.occurred_at, event_note := ev.detail }
  else r

def NoticeRow.bounce (ev : ProviderEvent) (n : NoticeRow) : NoticeRow :=
  if bounceFrom ev.bounceType n.bounce_type then
    { n with bounce_type := some ev.bounceType, event_note := ev.detail }
  else n

def NoticeRow.noted (ev : ProviderEvent) (n : NoticeRow) : NoticeRow :=
  { n with event_note := ev.detail }

def ContactRow.suppress (status : ContactStatus) (source : String) (now : Date) (c : ContactRow) :
    ContactRow :=
  if suppressFrom status c.status then c.withdrawn status source now else c

def ConsentRow.suppress (status : ContactStatus) (source : String) (now : Date) (k : ConsentRow) :
    ConsentRow :=
  if suppressFrom status k.status then k.withdrawn status source now else k

namespace EventStore

variable (t : EventStore)

/-- The consent of the contact for a brand of its account. -/
def consentOf (contact : Nat) (accountId brandId : String) : Option Nat :=
  t.consents.findIdx? fun k =>
    k.contact_id = contact && k.account_id = accountId && k.brand_id = brandId

/-- The contact is suppressed, or its consent for the brand where it unsubscribes from that. -/
def suppressContact (contact : Nat) (status : ContactStatus) (source brandId : String)
    (now : Date) : EventStore :=
  match t.contacts[contact]? with
  | none => t
  | some c =>
      if status = .unsubscribed ∧ brandId ≠ "" then
        match t.consentOf contact c.account_id brandId with
        | none => t
        | some i =>
          { t with consents := t.consents.modify i (ConsentRow.suppress status source now) }
      else { t with contacts := t.contacts.modify contact (ContactRow.suppress status source now) }

def suppressBy (ev : ProviderEvent) (contact : Nat) (brandId : String) (now : Date) : EventStore :=
  match ev.contactStatus with
  | some status => t.suppressContact contact status ev.source brandId now
  | none => t

/-- The list that the channel mails is evaluated. -/
def evaluateChannel (channel : Nat) (now : Date) : EventStore :=
  match t.channels[channel]? with
  | some c =>
      if c.list_name = "" then t
      else { t with holds := evaluate t.sends t.channels t.holds c.account_id c.list_name now }
  | none => t

/-- A bounce on the send. -/
def recordBounce (ev : ProviderEvent) (place : Nat) : EventStore :=
  if ev.undelivered then { t with sends := t.sends.modify place (SendRow.bounce ev) } else t

/-- A complaint that is not about an earlier mail, on the send. -/
def recordComplaint (ev : ProviderEvent) (place : Nat) : EventStore :=
  if ev.kind = .complaint ∧ ev.repeated = false then
    { t with sends := t.sends.modify place (SendRow.complain ev) }
  else t

/-- `apply`. A list is evaluated after a new complaint and after a hard bounce that is recorded. -/
def applySend (ev : ProviderEvent) (place : Nat) (row : SendRow) (now : Date) : EventStore :=
  let bounced := ev.undelivered && bounceFrom ev.bounceType row.bounce_type
  let newComplaint := ev.kind = .complaint && !ev.repeated && row.complained_at = none
  let t' := ((t.recordBounce ev place).recordComplaint ev place).suppressBy ev row.contact_id
    row.brand_id now
  if newComplaint || (bounced && ev.kind = .bounce && !ev.repeated) then
    t'.evaluateChannel row.channel_id now
  else t'

/-- A bounce or a complaint on the notice. -/
def recordOnNotice (ev : ProviderEvent) (place : Nat) (row : NoticeRow) : EventStore :=
  if ev.undelivered then { t with notices := t.notices.modify place (NoticeRow.bounce ev) }
  else if ev.kind = .complaint ∧ row.event_note ≠ ev.detail then
    { t with notices := t.notices.modify place (NoticeRow.noted ev) }
  else t

def applyNotice (ev : ProviderEvent) (place : Nat) (row : NoticeRow) (now : Date) : EventStore :=
  (t.recordOnNotice ev place row).suppressBy ev row.contact_id row.brand_id now

/-- One event of `applyAll`. -/
def applyEvent (emailHash : String → String) (credentialId : String) (ev : ProviderEvent)
    (now : Date) : EventStore :=
  match t.keys.findTarget emailHash credentialId ev with
  | some (.send place) =>
      match t.sends[place]? with
      | some row => t.applySend ev place row now
      | none => t
  | some (.notice place) =>
      match t.notices[place]? with
      | some row => t.applyNotice ev place row now
      | none => t
  | none => t

end EventStore

/-! ## Deliveries -/

/-- A verified event, the credential whose webhook it came to and when it is applied. -/
structure Delivery where
  credential : String
  event : ProviderEvent
  now : Date

def EventStore.deliver (emailHash : String → String) (t : EventStore) (d : Delivery) : EventStore :=
  t.applyEvent emailHash d.credential d.event d.now

def EventStore.deliverAll (emailHash : String → String) (t : EventStore) (ds : List Delivery) :
    EventStore :=
  ds.foldl (EventStore.deliver emailHash) t

end WorkflowBoard.MailEvents
