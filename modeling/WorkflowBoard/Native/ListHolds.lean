import WorkflowBoard.Native.EmailGates
import WorkflowBoard.Native.Consents

/-!
# List holds (`modules/marketing/marketing-list-hold.service.ts`, `common/marketing/email.ts`)

What a list is counted over, the reason it is held for, and `evaluate` when nothing runs beside it.
Left out are audit, who released a hold and why, and the rates that are kept with the counts. A rate
is compared with its threshold as a fraction: the counts are far below the precision of a double.
-/

namespace WorkflowBoard.MailEvents

open Email (SendStatus)
open Consents (BounceType NoticeStatus)

/-! ## Rows -/

/-- A channel; `config` has the credential and the list, empty if it has not. -/
structure ChannelRow where
  account_id : String
  isEmail : Bool := true
  credential_id : String := ""
  list_name : String := ""

/-- The columns of a send that no event writes. -/
structure SendKey where
  id : String
  /-- Place of the channel. -/
  channel_id : Nat
  /-- Place of the contact. -/
  contact_id : Nat
  brand_id : String := ""
  credential_id : String := ""
  provider_message_id : String := ""
  status : SendStatus := .queued
  sent_at : Option Date := none
deriving DecidableEq

/-- `bounce_type` is none for the empty string. -/
structure SendRow extends SendKey where
  bounce_type : Option BounceType := none
  bounced_at : Option Date := none
  complained_at : Option Date := none
  event_note : String := ""
deriving DecidableEq

structure ListMailStats where
  sent : Nat := 0
  bounced : Nat := 0
  complained : Nat := 0
  hard_bounced : Nat := 0
deriving DecidableEq

inductive HoldReason where
  | complaintRate
  | hardBounceRate
deriving DecidableEq

inductive HoldStatus where
  | held
  | released
deriving DecidableEq

structure HoldRow where
  account_id : String
  list_name : String
  status : HoldStatus := .held
  reason : HoldReason
  since : Date
  stats : ListMailStats
  released_at : Option Date := none

/-! ## The reason to hold a list -/

/-- `COMPLAINT_HOLD_MIN`. -/
def complaintHoldMin : Nat := 2

/-- `HARD_BOUNCE_HOLD_MIN`. -/
def hardBounceHoldMin : Nat := 2

/-- `COMPLAINT_WINDOW_MS`, 30 days. -/
def complaintWindowMs : Int := 30 * 24 * 60 * 60000

namespace ListMailStats

/-- The mails that came through. -/
def delivered (s : ListMailStats) : Nat := s.sent - s.bounced

/-- `complaintRate(stats) >= COMPLAINT_HOLD_RATE`, which is 0.003. -/
def complaintRateReached (s : ListMailStats) : Bool :=
  if s.delivered = 0 then 0 < s.complained else 3 * s.delivered ≤ 1000 * s.complained

/-- `hardBounceRate(stats) >= HARD_BOUNCE_HOLD_RATE`, which is 0.05. -/
def hardBounceRateReached (s : ListMailStats) : Bool := 0 < s.sent && s.sent ≤ 20 * s.hard_bounced

end ListMailStats

def listHoldReason (s : ListMailStats) : Option HoldReason :=
  if complaintHoldMin ≤ s.complained ∧ s.complaintRateReached then some .complaintRate
  else if hardBounceHoldMin ≤ s.hard_bounced ∧ s.hardBounceRateReached then some .hardBounceRate
  else none

/-! ## Counting -/

def HoldRow.isActiveFor (accountId listName : String) (h : HoldRow) : Bool :=
  h.account_id = accountId && h.list_name = listName && h.status = .held

/-- The time of the release that is the last of the list. -/
def lastRelease (holds : List HoldRow) (accountId listName : String) : Option Date :=
  (holds.filterMap fun h =>
    if h.account_id = accountId ∧ h.list_name = listName ∧ h.status = .released
    then h.released_at else none).max?

/-- The window is 30 days, and begins at the last release if that is later. -/
def countedSince (released : Option Date) (now : Date) : Date :=
  match released with
  | some since => if now - complaintWindowMs < since then since else now - complaintWindowMs
  | none => now - complaintWindowMs

def ChannelRow.isOf (accountId listName : String) (c : ChannelRow) : Bool :=
  c.account_id = accountId && c.isEmail && c.list_name = listName

/-- Whether the channel at the place mails the list of the account. -/
def channelsOf (channels : List ChannelRow) (accountId listName : String) (place : Nat) : Bool :=
  (channels[place]?).any (·.isOf accountId listName)

/-- The `base()` of each count. -/
def SendRow.countedIn (channels : List ChannelRow) (accountId listName : String) (since : Date)
    (r : SendRow) : Bool :=
  channelsOf channels accountId listName r.channel_id && r.status = .sent &&
    r.sent_at.any (since ≤ ·)

section Counts

variable (sends : List SendRow) (channels : List ChannelRow) (accountId listName : String)
  (since : Date)

def countSent : Nat := sends.countP fun r => r.countedIn channels accountId listName since

def countBounced : Nat :=
  sends.countP fun r => r.countedIn channels accountId listName since && r.bounced_at.isSome

def countComplained : Nat :=
  sends.countP fun r => r.countedIn channels accountId listName since && r.complained_at.isSome

def countHardBounced : Nat :=
  sends.countP fun r =>
    r.countedIn channels accountId listName since && r.bounce_type = some .hard

def listStats : ListMailStats :=
  { sent := countSent sends channels accountId listName since
    bounced := countBounced sends channels accountId listName since
    complained := countComplained sends channels accountId listName since
    hard_bounced := countHardBounced sends channels accountId listName since }

end Counts

/-! ## Evaluation -/

def isHeld (holds : List HoldRow) (accountId listName : String) : Bool :=
  holds.any (·.isActiveFor accountId listName)

/-- The insert of a hold, which the unique index refuses for a list that has one. -/
def insertHold (holds : List HoldRow) (hold : HoldRow) : List HoldRow :=
  if isHeld holds hold.account_id hold.list_name then holds else holds ++ [hold]

def evaluate (sends : List SendRow) (channels : List ChannelRow) (holds : List HoldRow)
    (accountId listName : String) (now : Date) : List HoldRow :=
  if accountId = "" ∨ listName = "" then holds
  else if isHeld holds accountId listName then holds
  else
    let since := countedSince (lastRelease holds accountId listName) now
    let stats := listStats sends channels accountId listName since
    match listHoldReason stats with
    | some reason =>
        insertHold holds
          { account_id := accountId, list_name := listName, reason := reason, since := since
            stats := stats }
    | none => holds

end WorkflowBoard.MailEvents
