import WorkflowBoard.ForStd.Transition
import WorkflowBoard.Native.MailEvents

/-!
# Holds beside sends, events and releases

The calls that end in the counts of a list, one statement of each at a time: a send records its
result (`marketing-email.service.ts`), an event is recorded on its send and evaluates the list
(`marketing-email-events.service.ts`, `marketing-list-hold.service.ts`), a person releases a hold.
Channels do not change. When a send is due and what else keeps it back, what an event does to the
contact, and audit are left out; no server dies.
-/

namespace WorkflowBoard.MailEvents

open Email (SendStatus)
open Consents (BounceType)

/-! ## Calls -/

/-- A send that has claimed its row: the provider is asked, then the result is written. -/
inductive SendPhase where
  | asking
  | accepted (sentAt : Date) (messageId credentialId : String)
  | ended
deriving DecidableEq

structure SendCall where
  place : Nat
  phase : SendPhase := .asking

/-- The four counts of `stats`, as far as they have come back. -/
structure CountsRead where
  sent : Option Nat := none
  bounced : Option Nat := none
  complained : Option Nat := none
  hard_bounced : Option Nat := none
deriving DecidableEq

inductive CountName where
  | sent
  | bounced
  | complained
  | hardBounced

inductive EventPhase where
  /-- The row is found. -/
  | writing
  /-- What it says is recorded for the first time; the channel is read next. -/
  | recorded
  | checking (accountId listName : String) (now : Date)
  | reading (accountId listName : String) (now : Date)
  | counting (accountId listName : String) (since : Date) (read : CountsRead)
  | inserting (accountId listName : String) (since : Date) (stats : ListMailStats)
      (reason : HoldReason)
  | ended
deriving DecidableEq

/-- An event that is applied to the send at `place`, in the channel at `channel`. -/
structure EventCall where
  place : Nat
  channel : Nat
  event : ProviderEvent
  phase : EventPhase := .writing

/-- A release that has read its hold and the clock. -/
structure ReleaseCall where
  place : Nat
  releasedAt : Date
  ended : Bool := false

/-- The mails that count are all sent within the window that begins at `windowStart`. -/
structure HoldWorld where
  windowStart : Date
  channels : List ChannelRow

structure HoldState where
  clock : Date
  sends : List SendRow := []
  holds : List HoldRow := []
  sending : List SendCall := []
  events : List EventCall := []
  releases : List ReleaseCall := []

/-! ## Writes -/

/-- The `finish('sent', …)` of a send. -/
def SendRow.recorded (sentAt : Date) (messageId credentialId : String) (r : SendRow) : SendRow :=
  { r with
    status := .sent, sent_at := some sentAt, provider_message_id := messageId
    credential_id := credentialId }

/-- Any other `finish`; the credential is known once the provider was asked. -/
def SendRow.finished (status : SendStatus) (credentialId : Option String) (r : SendRow) : SendRow :=
  { r with status := status, credential_id := credentialId.getD r.credential_id }

def SendRow.withStatus (status : SendStatus) (r : SendRow) : SendRow := { r with status := status }

/-- The writes of `apply` on its send. -/
def SendRow.told (ev : ProviderEvent) (r : SendRow) : SendRow :=
  let r := if ev.undelivered then r.bounce ev else r
  if ev.kind = .complaint ∧ ev.repeated = false then r.complain ev else r

/-- Whether the list is evaluated after an event that found the row so. -/
def SendRow.evaluatesBy (ev : ProviderEvent) (r : SendRow) : Bool :=
  (ev.kind = .complaint && !ev.repeated && r.complained_at = none) ||
    ((ev.undelivered && bounceFrom ev.bounceType r.bounce_type) && ev.kind = .bounce &&
      !ev.repeated)

def HoldRow.released (at' : Date) (h : HoldRow) : HoldRow :=
  if h.status = .held then { h with status := .released, released_at := some at' } else h

namespace CountsRead

/-- The counts, once all have come back. -/
def stats (c : CountsRead) : Option ListMailStats := do
  let sent ← c.sent
  let bounced ← c.bounced
  let complained ← c.complained
  let hard_bounced ← c.hard_bounced
  return { sent, bounced, complained, hard_bounced }

/-- One more count comes back. -/
def put (c : CountsRead) (name : CountName) (all : ListMailStats) : CountsRead :=
  match name with
  | .sent => { c with sent := some all.sent }
  | .bounced => { c with bounced := some all.bounced }
  | .complained => { c with complained := some all.complained }
  | .hardBounced => { c with hard_bounced := some all.hard_bounced }

end CountsRead

/-- What `evaluate` does when the counts are there. -/
def afterCounts (accountId listName : String) (since : Date) (read : CountsRead) : EventPhase :=
  match read.stats with
  | none => .counting accountId listName since read
  | some stats =>
      match listHoldReason stats with
      | some reason => .inserting accountId listName since stats reason
      | none => .ended

/-! ## Steps -/

inductive HoldAction where
  | tick (elapsed : Nat)
  | enqueue (id : String) (channel contact : Nat) (brandId : String)
  | claim (place : Nat)
  /-- The provider has accepted the mail; the time of the result is read. -/
  | accept (k : Nat) (messageId credentialId : String)
  | record (k : Nat)
  /-- The send ends in another way. -/
  | finish (k : Nat) (status : SendStatus) (credentialId : Option String)
  | closeStuck (place : Nat)
  | event (place : Nat) (ev : ProviderEvent)
  | next (k : Nat)
  | count (k : Nat) (name : CountName)
  | startRelease (place : Nat)
  | release (k : Nat)

namespace HoldState

variable (w : HoldWorld) (s : HoldState)

def setSend (k : Nat) (c : SendCall) : HoldState := { s with sending := s.sending.set k c }

def setEvent (k : Nat) (c : EventCall) : HoldState := { s with events := s.events.set k c }

def setRow (place : Nat) (r : SendRow) : HoldState := { s with sends := s.sends.set place r }

/-- The next statement of an event; a list without a name or an account is not evaluated. -/
def eventNext (k : Nat) (c : EventCall) : Option HoldState :=
  match c.phase with
  | .writing =>
      match s.sends[c.place]? with
      | none => some (s.setEvent k { c with phase := .ended })
      | some r =>
          some ((s.setRow c.place (r.told c.event)).setEvent k
            { c with phase := if r.evaluatesBy c.event then .recorded else .ended })
  | .recorded =>
      match w.channels[c.channel]? with
      | some channel =>
          if channel.list_name = "" ∨ channel.account_id = "" then
            some (s.setEvent k { c with phase := .ended })
          else
            some (s.setEvent k
              { c with phase := .checking channel.account_id channel.list_name s.clock })
      | none => some (s.setEvent k { c with phase := .ended })
  | .checking accountId listName now =>
      some (s.setEvent k { c with
        phase := if isHeld s.holds accountId listName then .ended
          else .reading accountId listName now })
  | .reading accountId listName now =>
      some (s.setEvent k { c with
        phase := .counting accountId listName
          (countedSince (lastRelease s.holds accountId listName) now) {} })
  | .inserting accountId listName since stats reason =>
      let hold := { account_id := accountId, list_name := listName, reason, since, stats }
      some ({ s with holds := insertHold s.holds hold }.setEvent k { c with phase := .ended })
  | .counting .. | .ended => none

def step (a : HoldAction) : Option HoldState :=
  match a with
  | .tick elapsed =>
      if s.clock + elapsed ≤ w.windowStart + complaintWindowMs then
        some { s with clock := s.clock + elapsed }
      else none
  | .enqueue id channel contact brandId =>
      some { s with
        sends := s.sends ++
          [{ id, channel_id := channel, contact_id := contact, brand_id := brandId }] }
  | .claim place =>
      match s.sends[place]? with
      | some r =>
          if r.status.isWaiting then
            some { s.setRow place (r.withStatus .sending) with sending := s.sending ++ [{ place }] }
          else none
      | none => none
  | .accept k messageId credentialId =>
      match s.sending[k]? with
      | some c =>
          if c.phase = .asking then
            some (s.setSend k { c with phase := .accepted s.clock messageId credentialId })
          else none
      | none => none
  | .record k =>
      match s.sending[k]? with
      | some { place, phase := .accepted sentAt messageId credentialId } =>
          match s.sends[place]? with
          | some r =>
              some ((s.setRow place (r.recorded sentAt messageId credentialId)).setSend k
                { place, phase := .ended })
          | none => none
      | _ => none
  | .finish k status credentialId =>
      match s.sending[k]? with
      | some { place, phase := .asking } =>
          match s.sends[place]? with
          | some r =>
              if status = .deferred ∨ status = .failed ∨ status = .suppressed then
                some ((s.setRow place (r.finished status credentialId)).setSend k
                  { place, phase := .ended })
              else none
          | none => none
      | _ => none
  | .closeStuck place =>
      match s.sends[place]? with
      | some r => if r.status = .sending then some (s.setRow place (r.withStatus .failed)) else none
      | none => none
  | .event place ev =>
      match s.sends[place]? with
      | some r =>
          some { s with events := s.events ++ [{ place, channel := r.channel_id, event := ev }] }
      | none => none
  | .next k =>
      match s.events[k]? with
      | some c => s.eventNext w k c
      | none => none
  | .count k name =>
      match s.events[k]? with
      | some { place, channel, event, phase := .counting accountId listName since read } =>
          let read := read.put name (listStats s.sends w.channels accountId listName since)
          some (s.setEvent k
            { place, channel, event, phase := afterCounts accountId listName since read })
      | _ => none
  | .startRelease place =>
      if place < s.holds.length then
        some { s with releases := s.releases ++ [{ place, releasedAt := s.clock }] }
      else none
  | .release k =>
      match s.releases[k]? with
      | some c =>
          if c.ended then none
          else
            some { s with
              holds := s.holds.modify c.place (HoldRow.released c.releasedAt)
              releases := s.releases.set k { c with ended := true } }
      | none => none

/-- Whether the counts of the list meet a reason to hold it. -/
def meets (accountId listName : String) : Bool :=
  (listHoldReason (listStats s.sends w.channels accountId listName
    (countedSince (lastRelease s.holds accountId listName) s.clock))).isSome

/-- No call is under way. -/
def quiescent : Bool :=
  s.sending.all (·.phase = .ended) && s.events.all (·.phase = .ended) && s.releases.all (·.ended)

end HoldState

/-- It begins in the window, with nothing under way; each list that meets a reason is held, once. -/
structure HoldState.Initial (w : HoldWorld) (s : HoldState) : Prop where
  clock : w.windowStart ≤ s.clock ∧ s.clock ≤ w.windowStart + complaintWindowMs
  sends : ∀ r ∈ s.sends, r.status = .sent → ∀ t, r.sent_at = some t → w.windowStart ≤ t
  unique : ∀ accountId listName, s.holds.countP (·.isActiveFor accountId listName) ≤ 1
  held : ∀ accountId listName, accountId ≠ "" → listName ≠ "" →
    s.meets w accountId listName = true → isHeld s.holds accountId listName = true
  idle : s.sending = [] ∧ s.events = [] ∧ s.releases = []

def holdSystem (w : HoldWorld) : Transition HoldState HoldAction where
  init s := s.Initial w
  step s a s' := s.step w a = some s'

end WorkflowBoard.MailEvents
