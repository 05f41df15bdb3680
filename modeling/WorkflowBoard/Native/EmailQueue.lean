import WorkflowBoard.Native.EmailGates
import WorkflowBoard.Native.RunBudget

/-!
# The queue of marketing mail (`modules/marketing/marketing-email.service.ts`)

`processQueue` closes the rows that are stuck, lists what is due, claims one row after the other
and takes it through `sendOne`. On Postgres any number of servers have a pass underway; a sql.js
database belongs to one process. A statement is a step, and so are the request to the provider
and its answer.

What other services write is one value, `EmailTables`, that changes to any other between two
steps; `finishIfDone` writes there as well. A crash on sql.js takes the store back to the last
flush.
-/

namespace WorkflowBoard.Email

open Budget (SqlStore)

structure EmailWorld where
  store : SqlStore
  localHour : LocalHour

structure EmailStore where
  sends : List EmailSend := []
  tables : EmailTables

/-- What could be read at some time. -/
structure Instant where
  clock : Date
  tables : EmailTables

/-- A row that a pass has claimed: its place, the row as it was read, what is left of the batch
    and the instant of the claim. -/
structure SendJob where
  place : Nat
  row : EmailSend
  due : List Nat
  claimed : Nat
deriving DecidableEq

inductive PassPhase where
  | finding
  | closing (stuck : List Nat)
  | listing
  | claiming (due : List Nat)
  | loading (place : Nat) (due : List Nat) (claimed : Nat)
  | sending (job : SendJob) (stage : SendStage)
  | ended
deriving DecidableEq

/-- A run of `processQueue`; `since` is the instant it began at. -/
structure Pass where
  now : Date
  since : Nat
  cache : PassCache := {}
  phase : PassPhase := .finding

/-- A request to the provider: the row it is for, its outcome once it has returned, the instants
    of the pass, the claim and the request, and whether the row had been closed by then. -/
structure ProviderCall where
  row : EmailSend
  since : Nat
  claimed : Nat
  started : Nat
  afterClose : Bool
  outcome : Option EmailOutcome := none

/-- Rows are known by their place. `past`, `calls` and `closed`, the rows that were closed as
    interrupted, are bookkeeping: no step depends on them. -/
structure EmailState where
  clock : Date
  store : EmailStore
  /-- The store in the file of sql.js. -/
  flushed : EmailStore
  passes : List Pass := []
  past : List Instant := []
  calls : List ProviderCall := []
  closed : List (String × String) := []

namespace EmailState

/-- All instants up to now. -/
def instants (s : EmailState) : List Instant := s.past ++ [⟨s.clock, s.store.tables⟩]

/-- The place of the present instant. -/
def present (s : EmailState) : Nat := s.past.length

def setPass (s : EmailState) (k : Nat) (p : Pass) : EmailState :=
  { s with passes := s.passes.set k p }

def modifySend (s : EmailState) (place : Nat) (f : EmailSend → EmailSend) : EmailState :=
  { s with store := { s.store with sends := s.store.sends.modify place f } }

/-- `CURRENT_TIMESTAMP`, which has whole seconds on sql.js. -/
def stamp (w : EmailWorld) (s : EmailState) : Date :=
  match w.store with
  | .postgres => s.clock
  | .sqljs => s.clock / 1000 * 1000

/-- `updated_at < bound`. As texts, which sql.js compares, a whole second is also below itself
    with milliseconds. -/
def isOlder (w : EmailWorld) (updated bound : Date) : Bool :=
  match w.store with
  | .postgres => updated < bound
  | .sqljs => updated ≤ bound

/-- The rows that `closeStuck` finds. -/
def stuckSends (w : EmailWorld) (s : EmailState) (now : Date) : List Nat :=
  ((List.range s.store.sends.length).filter fun i => (s.store.sends[i]?).any fun r =>
    r.status = .sending && isOlder w r.updated_at (now - stuckSendingMs)).take 500

/-- A row that is waiting and due. -/
def isDue (now : Date) (r : EmailSend) : Bool := r.status.isWaiting && r.next_attempt_at ≤ now

def nextAttempt (s : EmailState) (place : Nat) : Date :=
  ((s.store.sends[place]?).map (·.next_attempt_at)).getD 0

/-- The batch of a pass, in the order of `next_attempt_at`. -/
def dueSends (s : EmailState) (now : Date) : List Nat :=
  (((List.range s.store.sends.length).filter fun i =>
      (s.store.sends[i]?).any (isDue now)).insertionSort
    fun i j => s.nextAttempt i ≤ s.nextAttempt j).take batchSize

/-- Close a stuck row, if it is still being sent. -/
def closeSend (w : EmailWorld) (s : EmailState) (place : Nat) : EmailState :=
  match s.store.sends[place]? with
  | some r =>
    if r.status = .sending then
      { s.modifySend place (·.interrupted (s.stamp w)) with closed := r.key :: s.closed }
    else s
  | none => s

/-- Start the request of a row, or fail where there is no such provider. -/
def startCall (s : EmailState) (k : Nat) (p : Pass) (job : SendJob) (sender : ChannelSender) :
    EmailState :=
  if isKnownProvider sender.provider then
    { s with
      passes := s.passes.set k { p with
        phase := .sending job (.calling sender s.calls.length) }
      calls := s.calls ++ [{
        row := job.row, since := p.since, claimed := job.claimed, started := s.present
        afterClose := s.closed.any (· = job.row.key) }] }
  else
    s.setPass k { p with phase := .sending job (.finishing
      (outcomeWrite p.now s.clock job.row sender.credentialId (unknownProvider sender.provider))) }

/-- The next statement of a pass. -/
def passNext (w : EmailWorld) (s : EmailState) (k : Nat) (p : Pass) : Option EmailState :=
  match p.phase with
  | .finding => some (s.setPass k { p with phase := .closing (s.stuckSends w p.now) })
  | .closing [] => some (s.setPass k { p with phase := .listing })
  | .closing (i :: stuck) => some ((s.closeSend w i).setPass k { p with phase := .closing stuck })
  | .listing => some (s.setPass k { p with phase := .claiming (s.dueSends p.now) })
  | .claiming [] => some (s.setPass k { p with phase := .ended })
  | .claiming (i :: due) =>
    if (s.store.sends[i]?).any (isDue p.now) then
      some ((s.modifySend i (·.claimed (s.stamp w))).setPass k
        { p with phase := .loading i due s.present })
    else some (s.setPass k { p with phase := .claiming due })
  | .loading i due claimed =>
    match s.store.sends[i]? with
    | some row => some (s.setPass k { p with
        phase := .sending { place := i, row, due, claimed } .contact })
    | none => some (s.setPass k { p with phase := .claiming due })
  | .sending job (.composing sender) => some (s.startCall k p job sender)
  | .sending job (.finishing f) =>
    some ((s.modifySend job.place (f.apply (s.stamp w))).setPass k
      { p with phase := .claiming job.due })
  | .sending job stage =>
    (sendOneNext w.localHour p.now s.store.tables job.row p.cache stage).map
      fun (stage, cache) => s.setPass k { p with cache, phase := .sending job stage }
  | .ended => none

/-- The message cannot be composed. -/
def composeThrows (s : EmailState) (k : Nat) (p : Pass) (message : String) : Option EmailState :=
  match p.phase with
  | .sending job (.composing sender) =>
    some (s.setPass k { p with phase := .sending job (.finishing (outcomeWrite p.now s.clock job.row
      sender.credentialId (.failed (sliceText 500 message)))) })
  | _ => none

/-- The request of a pass returns. -/
def answered (s : EmailState) (k : Nat) (p : Pass) (a : ProviderAnswer) : Option EmailState :=
  match p.phase with
  | .sending job (.calling sender n) =>
    let outcome := sendEmail sender.provider a
    some { s with
      passes := s.passes.set k { p with phase := .sending job (.finishing
        (outcomeWrite p.now s.clock job.row sender.credentialId outcome)) }
      calls := s.calls.modify n fun c => { c with outcome := some outcome } }
  | _ => none

end EmailState

/-- A row as `enqueue` inserts it. -/
structure EmailDraft where
  account_id : String
  campaign_id : String
  channel_id : String
  post_id : String
  contact_id : String
  brand_id : String
  next_attempt_at : Date

def EmailDraft.row (d : EmailDraft) (created : Date) : EmailSend :=
  { account_id := d.account_id, campaign_id := d.campaign_id, channel_id := d.channel_id
    post_id := d.post_id, contact_id := d.contact_id, brand_id := d.brand_id
    next_attempt_at := d.next_attempt_at, updated_at := created }

inductive EmailAction where
  | tick (elapsed : Nat)
  /-- Other services write. -/
  | change (tables : EmailTables)
  | enqueue (d : EmailDraft)
  /-- A hold is released: what it deferred in the channels of the list is due. -/
  | release (channels : List String)
  | begin
  | next (k : Nat)
  | composeThrows (k : Nat) (message : String)
  | answer (k : Nat) (a : ProviderAnswer)
  /-- A statement of a pass throws, or its server dies. -/
  | stop (k : Nat)
  | flush
  /-- The process of a sql.js database dies. -/
  | crash

/-- One step, if there is one. -/
def EmailAction.run (w : EmailWorld) (s : EmailState) : EmailAction → Option EmailState
  | tick elapsed => some { s with past := s.instants, clock := s.clock + elapsed }
  | change tables => some { s with past := s.instants, store := { s.store with tables } }
  | enqueue d =>
    let row := d.row (s.stamp w)
    -- `uq_marketing_email_sends_post_contact`
    if s.store.sends.any (·.key = row.key) then none
    else some { s with store := { s.store with sends := s.store.sends ++ [row] } }
  | release channels =>
    some { s with store := { s.store with
      sends := s.store.sends.map (·.released channels s.clock (s.stamp w)) } }
  | begin =>
    -- A pass of the same process is underway: `if (this.running) return`.
    if w.store = .sqljs && s.passes.any (·.phase ≠ .ended) then none
    else some { s with passes := s.passes ++ [{ now := s.clock, since := s.present }] }
  | next k => (s.passes[k]?).bind (s.passNext w k)
  | composeThrows k message => (s.passes[k]?).bind fun p => s.composeThrows k p message
  | answer k a => (s.passes[k]?).bind fun p => s.answered k p a
  | stop k => (s.passes[k]?).map fun p => s.setPass k { p with phase := .ended }
  | flush => if w.store = .sqljs then some { s with flushed := s.store } else none
  | crash =>
    if w.store = .sqljs then
      some { s with past := s.instants, store := s.flushed, passes := [] }
    else none

/-- Any number of passes, from a queue that is empty. -/
def emailSystem (w : EmailWorld) : Transition EmailState EmailAction where
  init s := s.store.sends = [] ∧ s.flushed.sends = [] ∧ s.passes = [] ∧ s.calls = [] ∧
    s.closed = []
  step s a s' := a.run w s = some s'

end WorkflowBoard.Email
