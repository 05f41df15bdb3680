import WorkflowBoard.Native.JsString
import WorkflowBoard.Native.TicketEdit

/-!
# Dispatching and supervising tickets (`modules/agents/ticket-dispatch.service.ts`)

`dispatch` sends the trigger of a ticket to the host of its assignee, `applyManagerAck` takes the
answers of the host, and `supervise` sends the trigger again when an agent has gone silent, until
it parks the ticket. An agent that writes on its ticket makes progress: the handlers of its
activity reset the count of the supervisor.

Each call runs one database statement at a time, in any interleaving with the others. What a
statement meets outside the tables (hosts, accounts, the registries in memory) comes with the
step that runs it.
-/

namespace WorkflowBoard.Tickets

/-- Supervisor re-sends without progress before the ticket is parked. -/
def maxSupervisorRedispatches : Nat := 3

def supervisorLiveQuietLimitMs : Int := 2 * 60 * 60000

def supervisorLiveAckTtlMs : Int := 15 * 60000

def nackRetryBaseMs : Int := 60000

/-- Why a ticket is sent to its assignee. -/
inductive DispatchSource where
  | start
  | comment
  | manual
  | unpend
  | prerequisite_resolved
  | ci_wait_resolved
  | reassigned
  | supervisor
  | nack_retry
  | manager_restart
  | other (name : String)
deriving DecidableEq

/-- The columns of an account that the dispatcher reads. -/
structure Account where
  id : String
  dispatch_paused : Bool := false
  max_concurrent_tickets_per_agent : Nat := 1
  supervisor_stale_ms : Int := 1800000
  supervisor_resend_ms : Int := 300000
deriving DecidableEq

structure RuntimeHost where
  account_id : String
  is_active : Bool := true

/-! ## The activity log -/

inductive AckOutcome where
  | processed
  | nack
  | suppressed
deriving DecidableEq

inductive ActivityAction where
  | trigger_emitted
  | dispatch_ack (outcome : AckOutcome)
deriving DecidableEq

/-- A row that the handling of answers reads again. -/
structure ActivityRow where
  ticket_id : String
  account_id : String
  action : ActivityAction
  field_changed : String
  new_value : String
  created_at : Date

/-- The last trigger of a ticket. The rows are newest first. -/
def latestEmitted (log : List ActivityRow) (ticketId : String) : Option ActivityRow :=
  log.find? fun row => row.ticket_id = ticketId && row.action = .trigger_emitted

/-! ## `dispatch` -/

/-- What a dispatch meets: the host and the account, whether the instance is quiesced, whether the
    host is reachable, whether it refuses the runtime, and what building the payload gives. -/
structure DispatchOutside where
  host : Option RuntimeHost := none
  account : Option Account := none
  quiesced : Bool := false
  reachable : Bool := true
  refused : Bool := false
  buildFails : Bool := false
  triggerId : String := ""

/-- Everything before the log row: the reason a ticket is not sent, or the id of its trigger. -/
def dispatchCheck (t : Ticket) (o : DispatchOutside) : Except String String :=
  if t.archived_at.isSome then .error "archived"
  else if t.isPending then .error "pending"
  else if t.canonical_ticket_id.isSome then .error "duplicate"
  else if t.status ≠ .in_progress ∧ t.status ≠ .todo then .error ("status_" ++ t.status.text)
  else if t.assignee.isNone then .error "unassigned"
  else if !o.host.any fun h => h.is_active && h.account_id = t.account_id then
    .error "host_account_mismatch"
  else if o.account.isNone then .error "account_missing"
  else if o.account.any (·.dispatch_paused) then .error "account_paused"
  else if o.quiesced then .error "instance_quiesced"
  else if !o.reachable then .error "host_offline"
  else if o.refused then .error "runtime_refused"
  else if o.buildFails then .error "build_failed"
  else .ok o.triggerId

/-- `checked` is before the log row, `logged` before the stamp, `stamped` before the event. -/
inductive DispatchPhase where
  | start
  | checked (triggerId : String)
  | logged (triggerId : String)
  | stamped (triggerId : String)
  | returned (reason : Option String)
deriving DecidableEq

/-- `ticket` is the entity as it was loaded. -/
structure DispatchCall where
  ticket : Ticket
  source : DispatchSource
  phase : DispatchPhase := .start
deriving DecidableEq

/-- A trigger other than the supervisor's ends the quiet episode. -/
def Ticket.stamp (source : DispatchSource) (now : Date) (t : Ticket) : Ticket :=
  { t with
    last_dispatched_at := some now
    supervisor_live_since := if source = .supervisor then t.supervisor_live_since else none
    supervisor_live_at := if source = .supervisor then t.supervisor_live_at else none }

/-! ## `applyManagerAck` -/

structure AckArgs where
  ticketId : String
  triggerId : String
  outcome : AckOutcome
  reason : String := ""
  managerAgentId : String := ""

def inflightLiveProcess : String := "inflight_live_process"

/-- The host has suppressed a trigger because the process of the last one is alive. -/
def AckArgs.isLive (a : AckArgs) : Bool :=
  a.outcome = .suppressed && a.reason = inflightLiveProcess

/-- The answer comes from the host of the assignee and is about the last trigger, which was sent
    to this assignee. -/
def AckArgs.isLatest (a : AckArgs) (log : List ActivityRow) (t : Ticket) : Bool :=
  some a.managerAgentId = t.assignee.map (·.manager_agent_id) &&
  (latestEmitted log t.id).any fun e =>
    e.field_changed = a.triggerId && e.new_value = t.assignee_key

/-- The trigger is young, and the ticket is being worked on. -/
def AckArgs.isFresh (log : List ActivityRow) (t : Ticket) (now : Date) : Bool :=
  t.status = .in_progress && !t.isPending && t.archived_at.isNone && t.parent_id.isNone &&
  t.canonical_ticket_id.isNone &&
  (latestEmitted log t.id).any fun e =>
    e.account_id = t.account_id && now - e.created_at < supervisorLiveAckTtlMs

/-- The answer has been recorded before. -/
def AckArgs.isDuplicate (a : AckArgs) (log : List ActivityRow) : Bool :=
  log.any fun row => row.ticket_id = a.ticketId &&
    row.action = .dispatch_ack .suppressed && row.field_changed = a.triggerId &&
    row.new_value = inflightLiveProcess

/-- The condition of the update that records a live process. -/
def Ticket.sameEpisode (t row : Ticket) : Bool :=
  row.assignee_key = t.assignee_key && row.status = .in_progress &&
  row.last_dispatched_at = t.last_dispatched_at && !row.isPending &&
  row.supervisor_redispatches = t.supervisor_redispatches &&
  row.supervisor_live_since = t.supervisor_live_since &&
  row.supervisor_live_at = t.supervisor_live_at

/-- The first live answer starts an episode, the others keep its start. -/
def Ticket.recordLive (since now : Date) (t : Ticket) : Ticket :=
  { t with supervisor_live_since := some since, supervisor_live_at := some now }

/-- The condition of the update that ends an episode. -/
def Ticket.sameHolder (t row : Ticket) : Bool :=
  row.assignee_key = t.assignee_key && row.last_dispatched_at = t.last_dispatched_at &&
  row.supervisor_live_since = t.supervisor_live_since &&
  row.supervisor_live_at = t.supervisor_live_at

def Ticket.clearLive (t : Ticket) : Ticket :=
  { t with supervisor_live_since := none, supervisor_live_at := none }

/-- `start` is before the read of the ticket, `live` and `processed` before the read of the last
    trigger, `unique` before the look for the same answer, `record` and `clear` before the update,
    `log` before the row of the answer. -/
inductive AckPhase where
  | start
  | live (ticket : Ticket)
  | unique (ticket : Ticket) (now : Date)
  | record (ticket : Ticket) (now : Date)
  | processed (ticket : Ticket)
  | clear (ticket : Ticket)
  | log (ticket : Ticket)
  | returned (applied : Bool)
deriving DecidableEq

structure AckCall where
  args : AckArgs
  phase : AckPhase := .start

structure NackRetry where
  ticketId : String
  retryAt : Date
  attempts : Nat

/-! ## Activity of the agent -/

/-- `onActivity` and `onComment` on a root ticket: it is read, and its record reset if there is
    one. -/
inductive ProgressPhase where
  | start
  | resetting
  | returned
deriving DecidableEq

structure ProgressCall where
  ticketId : String
  phase : ProgressPhase := .start

/-- The record of the supervisor starts over. -/
def Ticket.restart (t : Ticket) : Ticket :=
  { t with supervisor_redispatches := 0, supervisor_live_since := none, supervisor_live_at := none }

/-! ## `supervise` -/

/-- The tickets that are supervised. -/
def Ticket.supervised (t : Ticket) : Bool :=
  t.status = .in_progress && t.archived_at.isNone && t.parent_id.isNone &&
  t.canonical_ticket_id.isNone && t.assignee_key ≠ "" && !t.isPending

/-- The condition of the update that notes output. -/
def Ticket.sameRecord (t row : Ticket) : Bool :=
  row.supervisor_redispatches = t.supervisor_redispatches &&
  row.supervisor_live_since = t.supervisor_live_since &&
  row.supervisor_live_at = t.supervisor_live_at

/-- The episode goes on from the last output, and the count starts over. -/
def Ticket.noteOutput (output : Date) (t : Ticket) : Ticket :=
  { t with supervisor_live_since := some output, supervisor_redispatches := 0 }

def Ticket.countResend (count : Nat) (t : Ticket) : Ticket :=
  { t with supervisor_redispatches := count }

/-- The condition of the update that parks a ticket. -/
def Ticket.parkable (t row : Ticket) : Bool :=
  row.supervisor_redispatches = t.supervisor_redispatches && row.status = .in_progress &&
  row.assignee_key = t.assignee_key && row.archived_at.isNone && !row.isPending &&
  row.supervisor_live_since = t.supervisor_live_since &&
  row.supervisor_live_at = t.supervisor_live_at

def parkReason (liveQuiet : Bool) : String :=
  if liveQuiet then
    "The assignee process is alive but has reported no progress for 2 hours since live-process " ++
    "confirmation. Check for a stuck tool call or a background process keeping the session " ++
    "open; stop or resolve it before resuming."
  else
    "The assignee stopped 3 times without finishing or reporting progress. Check the Runtime " ++
    "Host and the agent log, then unpend to retry."

def Ticket.park (liveQuiet : Bool) (t : Ticket) : Ticket :=
  { t with
    pending_user_action := true
    pending_reason := parkReason liveQuiet
    pending_set_by := "AWB"
    supervisor_redispatches := 0 }

/-- The host has confirmed a live process within the last minutes. -/
def Ticket.liveConfirmed (t : Ticket) (now : Date) : Bool :=
  t.supervisor_live_at.any fun liveAt => now - liveAt < supervisorLiveAckTtlMs

/-- The live process has been quiet for too long. -/
def Ticket.quietExpired (t : Ticket) (now : Date) : Bool :=
  t.supervisor_live_since.any fun since => now - since ≥ supervisorLiveQuietLimitMs

/-- The re-sends are used up, and no live process is confirmed. -/
def Ticket.exhausted (t : Ticket) (now : Date) : Bool :=
  t.supervisor_redispatches ≥ maxSupervisorRedispatches && !t.liveConfirmed now

/-- How long the supervisor waits after the last signal. -/
def Ticket.superviseWaitMs (t : Ticket) (account : Account) (now : Date) : Int :=
  let orDefault := fun ms default : Int => if ms = 0 then default else ms
  let cadence := if t.supervisor_redispatches > 0
    then max 60000 (orDefault account.supervisor_resend_ms 300000)
    else max 60000 (orDefault account.supervisor_stale_ms 1800000)
  if t.liveConfirmed now then min cadence (5 * 60000) else cadence

/-- `turn` is before the look at the output of the agent, `judged` before the park of a quiet
    process or the read of the last comment, `due` before the park or the claim of a re-send,
    `waiting` during the dispatch with that number. -/
inductive PassPhase where
  | idle
  | turn (ticket : Ticket) (account : Account)
  | judged (ticket : Ticket) (account : Account)
  | due (ticket : Ticket) (account : Account) (latestComment : Date)
  | waiting (dispatch : Nat)
  | returned

structure Pass where
  now : Date
  accounts : List Account
  rest : List String
  phase : PassPhase := .idle

/-- What a statement of a pass meets: the last comment, and the live strands in memory. -/
structure PassOutside where
  latestComment : Date := 0
  liveStrand : Bool := false

/-! ## Any number of calls -/

/-- What happened to a ticket: its agent made progress or its record was started over, a trigger
    went to a host, the supervisor gave up re-sending, a live process was recorded. -/
inductive DispatchEvent where
  | progress (ticketId : String)
  | emitted (ticketId triggerId : String) (source : DispatchSource)
  | parked (ticketId : String)
  | live (ticketId triggerId : String)
deriving DecidableEq

/-- The tables, the maps in memory, the calls, and what happened, newest first. The last is a
    record of the run: no step depends on it. -/
structure DispatchState where
  db : TicketDb
  log : List ActivityRow
  clock : Date
  nackRetryAt : List NackRetry
  outputs : List (String × Date)
  dispatches : List DispatchCall
  acks : List AckCall
  handlers : List ProgressCall
  passes : List Pass
  history : List DispatchEvent

/-- Changes of a ticket by people and by other services. -/
inductive TicketChange where
  | assign (assignee : Option RuntimeSpec)
  | move (status : TicketStatus)
  | pend
  | unpend
  | waitFor (onTickets ciWait : Bool)
  | archive (at_ : Option Date)

def TicketChange.apply (now : Date) (c : TicketChange) (t : Ticket) : Ticket :=
  match c with
  | .assign assignee => t.setAssignee assignee
  | .move status => (t.move? status none t.position now).getD t
  | .pend => { t with pending_user_action := true }
  | .unpend =>
    if t.pending_user_action then { t.restart with pending_user_action := false } else t
  | .waitFor onTickets ciWait =>
    { t with pending_on_tickets := onTickets, pending_ci_wait := ciWait }
  | .archive at_ => { t with archived_at := at_ }

/-- The change starts the record of the supervisor over. -/
def TicketChange.restarts (c : TicketChange) (t : Ticket) : Bool :=
  match c with
  | .assign assignee => assigneeKey assignee ≠ t.assignee_key || assignee ≠ t.assignee
  | .move status => t.parent_id.isNone && t.status ≠ status &&
      (t.status = .in_progress || status ≠ .in_progress)
  | .unpend => t.pending_user_action
  | _ => false

section Change

variable (c : TicketChange) (now : Date) (x : Ticket)

theorem TicketChange.move_cases (status : TicketStatus) :
    (TicketChange.apply now (.move status) x = x ∧ (TicketChange.move status).restarts x = false) ∨
    (TicketChange.apply now (.move status) x = { x with status := childStatus status } ∧
      (TicketChange.move status).restarts x = false) ∨
    (TicketChange.apply now (.move status) x = x.moveTo status none x.position now ∧
      ((TicketChange.move status).restarts x = true ↔
        x.status = .in_progress ∨ status ≠ .in_progress)) := by
  simp only [TicketChange.apply, Ticket.move?]
  by_cases hchild : x.parent_id.isSome
  · have hkeeps : (TicketChange.move status).restarts x = false := by
      simp [TicketChange.restarts, Option.isNone_eq_false_iff.mpr hchild]
    rw [if_pos hchild]
    split
    · exact .inl ⟨rfl, hkeeps⟩
    · exact .inr (.inl ⟨rfl, hkeeps⟩)
  · rw [if_neg hchild]
    have hroot : x.parent_id = none := by simpa using hchild
    by_cases hstatus : x.status = status
    · rw [if_pos hstatus]
      exact .inl ⟨rfl, by simp [TicketChange.restarts, hstatus]⟩
    · rw [if_neg hstatus]
      exact .inr (.inr ⟨rfl, by simp [TicketChange.restarts, hstatus, hroot]⟩)

theorem TicketChange.apply_kept : (c.apply now x).id = x.id ∧
    (c.apply now x).account_id = x.account_id ∧
    (c.apply now x).last_dispatched_at = x.last_dispatched_at := by
  cases c with
  | assign assignee =>
    simp only [TicketChange.apply, Ticket.setAssignee]
    split <;> exact ⟨rfl, rfl, rfl⟩
  | move status =>
    obtain ⟨h, -⟩ | ⟨h, -⟩ | ⟨h, -⟩ := TicketChange.move_cases now x status
    all_goals
      rw [h]
      exact ⟨rfl, rfl, rfl⟩
  | unpend =>
    simp only [TicketChange.apply]
    split <;> exact ⟨rfl, rfl, rfl⟩
  | pend => exact ⟨rfl, rfl, rfl⟩
  | waitFor onTickets ciWait => exact ⟨rfl, rfl, rfl⟩
  | archive at_ => exact ⟨rfl, rfl, rfl⟩

theorem TicketChange.apply_id : (c.apply now x).id = x.id := (c.apply_kept now x).1

/-- A change leaves the record of the supervisor alone or starts it over. -/
theorem TicketChange.apply_record :
    (c.restarts x = false ∧ (c.apply now x).supervisor_redispatches = x.supervisor_redispatches ∧
      (c.apply now x).supervisor_live_since = x.supervisor_live_since) ∨
    (c.restarts x = true ∧ (c.apply now x).supervisor_redispatches = 0 ∧
      (c.apply now x).supervisor_live_since = none) := by
  cases c with
  | assign assignee =>
    simp only [TicketChange.apply, TicketChange.restarts, Ticket.setAssignee]
    split
    · rename_i hchanged
      exact .inr ⟨by simpa using hchanged, rfl, rfl⟩
    · rename_i hsame
      exact .inl ⟨by simpa using hsame, rfl, rfl⟩
  | move status =>
    obtain ⟨h, hkeeps⟩ | ⟨h, hkeeps⟩ | ⟨h, hiff⟩ := TicketChange.move_cases now x status
    · rw [h]
      exact .inl ⟨hkeeps, rfl, rfl⟩
    · rw [h]
      exact .inl ⟨hkeeps, rfl, rfl⟩
    · rw [h]
      by_cases hleaves : x.status = .in_progress ∨ status ≠ .in_progress
      · exact .inr ⟨hiff.mpr hleaves, if_pos hleaves, if_pos hleaves⟩
      · refine .inl ⟨?_, if_neg hleaves, if_neg hleaves⟩
        exact Bool.eq_false_iff.mpr fun hrestarts => hleaves (hiff.mp hrestarts)
  | unpend =>
    simp only [TicketChange.apply, TicketChange.restarts]
    by_cases hpending : x.pending_user_action
    · rw [if_pos hpending]
      exact .inr ⟨hpending, rfl, rfl⟩
    · rw [if_neg hpending]
      exact .inl ⟨Bool.eq_false_iff.mpr hpending, rfl, rfl⟩
  | pend => exact .inl ⟨rfl, rfl, rfl⟩
  | waitFor onTickets ciWait => exact .inl ⟨rfl, rfl, rfl⟩
  | archive at_ => exact .inl ⟨rfl, rfl, rfl⟩

end Change

/-- An update with a condition: the table if the row meets it, `none` if no row is affected. -/
def TicketDb.updateIf (db : TicketDb) (id : String) (cond : Ticket → Bool)
    (set : Ticket → Ticket) : Option TicketDb :=
  if (db.ticket? id).any cond then some (db.update id set) else none

/-- An update that affects a row: the row meets the condition. -/
theorem TicketDb.updateIf_eq_some {db db' : TicketDb} {j : String} {cond : Ticket → Bool}
    {f : Ticket → Ticket} (h : db.updateIf j cond f = some db') :
    db' = db.update j f ∧ ∃ r, db.ticket? j = some r ∧ cond r = true := by
  unfold TicketDb.updateIf at h
  split at h
  · rename_i hany
    cases h
    exact ⟨rfl, (Option.any_eq_true _ _).mp hany⟩
  · cases h

namespace DispatchState

/-- `getLatestOutputLivenessForTicket`, 0 if there is none. -/
def latestOutput (s : DispatchState) (id : String) : Date :=
  ((s.outputs.find? (·.1 = id)).map (·.2)).getD 0

/-- The next statement of a dispatch. -/
def dispatchStep (s : DispatchState) (o : DispatchOutside) (c : DispatchCall) :
    Option (DispatchState × DispatchPhase) :=
  match c.phase with
  | .start =>
    match dispatchCheck c.ticket o with
    | .error reason => some (s, .returned (some reason))
    | .ok triggerId => some (s, .checked triggerId)
  | .checked triggerId =>
    let row : ActivityRow :=
      { ticket_id := c.ticket.id, account_id := c.ticket.account_id, action := .trigger_emitted,
        field_changed := triggerId, new_value := assigneeKey c.ticket.assignee,
        created_at := s.clock }
    some ({ s with log := row :: s.log }, .logged triggerId)
  | .logged triggerId =>
    some ({ s with db := s.db.update c.ticket.id (Ticket.stamp c.source s.clock) },
      .stamped triggerId)
  | .stamped triggerId =>
    some ({ s with history := .emitted c.ticket.id triggerId c.source :: s.history },
      .returned none)
  | .returned _ => none

/-- A nack is retried later and later; any other answer forgets it. -/
def noteNack (s : DispatchState) (a : AckArgs) : List NackRetry :=
  let others := s.nackRetryAt.filter (·.ticketId ≠ a.ticketId)
  if a.outcome = .nack then
    let attempts := ((s.nackRetryAt.find? (·.ticketId = a.ticketId)).map (·.attempts)).getD 0 + 1
    others ++ [{
      ticketId := a.ticketId
      retryAt := s.clock + nackRetryBaseMs * min (2 ^ (attempts - 1)) 30
      attempts }]
  else others

/-- The next statement of `applyManagerAck`. -/
def ackStep (s : DispatchState) (a : AckArgs) : AckPhase → Option (DispatchState × AckPhase)
  | .start =>
    match s.db.ticket? a.ticketId with
    | none => some (s, .returned false)
    | some t =>
      if a.isLive then some (s, .live t)
      else if a.outcome = .processed ∧ t.supervisor_live_since.isSome then some (s, .processed t)
      else some (s, .log t)
  | .live t =>
    if a.isLatest s.log t ∧ AckArgs.isFresh s.log t s.clock then some (s, .unique t s.clock)
    else some (s, .returned false)
  | .unique t now =>
    if a.isDuplicate s.log then some (s, .returned false) else some (s, .record t now)
  | .record t now =>
    match s.db.updateIf t.id t.sameEpisode
      (Ticket.recordLive (t.supervisor_live_since.getD now) now) with
    | none => some (s, .returned false)
    | some db => some ({ s with db, history := .live t.id a.triggerId :: s.history }, .log t)
  | .processed t =>
    if a.isLatest s.log t then some (s, .clear t) else some (s, .log t)
  | .clear t =>
    some ({ s with db := (s.db.updateIf t.id t.sameHolder Ticket.clearLive).getD s.db }, .log t)
  | .log t =>
    let row : ActivityRow :=
      { ticket_id := a.ticketId, account_id := t.account_id, action := .dispatch_ack a.outcome,
        field_changed := a.triggerId, new_value := sliceText 500 a.reason, created_at := s.clock }
    some ({ s with log := row :: s.log, nackRetryAt := s.noteNack a }, .returned true)
  | .returned _ => none

/-- The next statement of the handling of an agent's activity. -/
def progressStep (s : DispatchState) (c : ProgressCall) :
    Option (DispatchState × ProgressPhase) :=
  match c.phase with
  | .start =>
    if (s.db.ticket? c.ticketId).any fun t =>
        t.supervisor_redispatches > 0 || t.supervisor_live_since.isSome
    then some (s, .resetting)
    else some (s, .returned)
  | .resetting => some ({ s with db := s.db.update c.ticketId Ticket.restart }, .returned)
  | .returned => none

/-- The pass starts a dispatch and waits for it. -/
def passDispatch (s : DispatchState) (p : Pass) (t : Ticket) (source : DispatchSource) :
    DispatchState × Pass :=
  ({ s with dispatches := s.dispatches ++ [{ ticket := t, source }] },
    { p with phase := .waiting s.dispatches.length })

/-- The turn of the next ticket of a pass. -/
def passNext (s : DispatchState) (p : Pass) (id : String) : DispatchState × Pass :=
  match (s.db.ticket? id).filter Ticket.supervised with
  | none => (s, p)
  | some t =>
    match p.accounts.find? (·.id = t.account_id) with
    | none => (s, p)
    | some account =>
      if account.dispatch_paused then (s, p)
      else
        match s.nackRetryAt.find? (·.ticketId = id) with
        | none => (s, { p with phase := .turn t account })
        | some nack =>
          if nack.retryAt ≤ p.now then
            { s with nackRetryAt := s.nackRetryAt.filter (·.ticketId ≠ id) }.passDispatch p t
              .nack_retry
          else (s, p)

/-- Output since the live process was recorded is progress. -/
def passOutput (s : DispatchState) (p : Pass) (t : Ticket) (account : Account) :
    DispatchState × Pass :=
  let output := s.latestOutput t.id
  if t.supervisor_live_since.any (· < output) then
    match s.db.updateIf t.id t.sameRecord (Ticket.noteOutput output) with
    | none => (s, { p with phase := .idle })
    | some db => ({ s with db, history := .progress t.id :: s.history },
        { p with phase := .judged (t.noteOutput output) account })
  else (s, { p with phase := .judged t account })

/-- `parkStalled`. -/
def parkStalled (s : DispatchState) (t : Ticket) (liveQuiet : Bool) : DispatchState :=
  if liveQuiet ∧ s.latestOutput t.id > t.supervisor_live_since.getD 0 then s
  else
    match s.db.updateIf t.id t.parkable (Ticket.park liveQuiet) with
    | none => s
    | some db =>
      { s with db, history := if liveQuiet then s.history else .parked t.id :: s.history }

/-- The supervisor leaves the ticket alone: its agent has a live strand, or the last signal is not
    old enough. -/
def passWaits (s : DispatchState) (p : Pass) (t : Ticket) (account : Account)
    (latestComment : Date) (o : PassOutside) : Bool :=
  let lastSignal := max (t.last_dispatched_at.getD 0) (max latestComment (s.latestOutput t.id))
  o.liveStrand || p.now - lastSignal < t.superviseWaitMs account p.now

/-- A ticket that is due: it is parked, or its re-send is counted and dispatched. -/
def passDue (s : DispatchState) (p : Pass) (t : Ticket) : DispatchState × Pass :=
  if t.exhausted p.now then (s.parkStalled t false, { p with phase := .idle })
  else
    match s.db.updateIf t.id (·.supervisor_redispatches = t.supervisor_redispatches)
      (Ticket.countResend (t.supervisor_redispatches + 1)) with
    | none => (s, { p with phase := .idle })
    | some db => { s with db }.passDispatch p t .supervisor

/-- The next statement of a pass of the supervisor. -/
def passStep (s : DispatchState) (o : PassOutside) (p : Pass) : Option (DispatchState × Pass) :=
  match p.phase with
  | .idle =>
    match p.rest with
    | [] => some (s, { p with phase := .returned })
    | id :: rest => some (s.passNext { p with rest } id)
  | .turn t account => some (s.passOutput p t account)
  | .judged t account =>
    if t.liveConfirmed p.now ∧ t.quietExpired p.now then
      some (s.parkStalled t true, { p with phase := .idle })
    else some (s, { p with phase := .due t account o.latestComment })
  | .due t account latestComment =>
    if s.passWaits p t account latestComment o then some (s, { p with phase := .idle })
    else some (s.passDue p t)
  | .waiting k =>
    match s.dispatches[k]? with
    | some { phase := .returned _, .. } => some (s, { p with phase := .idle })
    | _ => none
  | .returned => none

end DispatchState

inductive DispatchAction where
  | tick (now : Date)
  | output (id : String) (at_ : Date)
  | change (id : String) (c : TicketChange)
  | startDispatch (id : String) (source : DispatchSource)
  | dispatch (i : Nat) (outside : DispatchOutside)
  | startAck (args : AckArgs)
  | ack (i : Nat)
  | startProgress (id : String)
  | progress (i : Nat)
  | supervise (accounts : List Account)
  | pass (i : Nat) (outside : PassOutside)

/-- The clock does not go back; only a pass dispatches for the supervisor. -/
def DispatchState.act (s : DispatchState) : DispatchAction → Except String DispatchState
  | .tick now => if s.clock ≤ now then .ok { s with clock := now } else .error "clock"
  | .output id at_ =>
    .ok { s with outputs := (id, at_) :: s.outputs.filter (·.1 ≠ id) }
  | .change id c =>
    match s.db.ticket? id with
    | none => .error "Ticket not found"
    | some t =>
      .ok { s with
        db := s.db.update id (c.apply s.clock)
        history := if c.restarts t then .progress id :: s.history else s.history }
  | .startDispatch id source =>
    match s.db.ticket? id with
    | none => .error "not_found"
    | some t =>
      if source = .supervisor then .error "the supervisor dispatches in a pass"
      else .ok { s with dispatches := s.dispatches ++ [{ ticket := t, source }] }
  | .dispatch i o =>
    match s.dispatches[i]? with
    | none => .error "no such call"
    | some c =>
      match s.dispatchStep o c with
      | none => .error "no statement to run"
      | some (t, phase) => .ok { t with dispatches := t.dispatches.set i { c with phase } }
  | .startAck args => .ok { s with acks := s.acks ++ [{ args }] }
  | .ack i =>
    match s.acks[i]? with
    | none => .error "no such call"
    | some c =>
      match s.ackStep c.args c.phase with
      | none => .error "no statement to run"
      | some (t, phase) => .ok { t with acks := t.acks.set i { c with phase } }
  | .startProgress id =>
    match s.db.ticket? id with
    | none => .error "not_found"
    | some t =>
      if t.parent_id.isSome then .error "children are a checklist"
      else .ok { s with
        handlers := s.handlers ++ [{ ticketId := id }]
        history := .progress id :: s.history }
  | .progress i =>
    match s.handlers[i]? with
    | none => .error "no such call"
    | some c =>
      match s.progressStep c with
      | none => .error "no statement to run"
      | some (t, phase) => .ok { t with handlers := t.handlers.set i { c with phase } }
  | .supervise accounts =>
    let working := (s.db.tickets.filter Ticket.supervised).take 500
    .ok { s with
      passes := s.passes ++ [{ now := s.clock, accounts, rest := working.map (·.id) }] }
  | .pass i o =>
    match s.passes[i]? with
    | none => .error "no such call"
    | some p =>
      match s.passStep o p with
      | none => .error "no statement to run"
      | some (t, p) => .ok { t with passes := t.passes.set i p }

/-! ### What a step can do -/

namespace DispatchState

/-- A call is started, or the next statement of one runs. -/
inductive Acts (s : DispatchState) : DispatchAction → DispatchState → Prop where
  | tick {now : Date} : Acts s (.tick now) { s with clock := now }
  | output {id : String} {at_ : Date} :
    Acts s (.output id at_) { s with outputs := (id, at_) :: s.outputs.filter (·.1 ≠ id) }
  | change {id : String} {c : TicketChange} {x : Ticket} (hx : s.db.ticket? id = some x) :
    Acts s (.change id c) { s with
      db := s.db.update id (c.apply s.clock)
      history := if c.restarts x then .progress id :: s.history else s.history }
  | startDispatch {id : String} {source : DispatchSource} {x : Ticket}
    (hsource : source ≠ .supervisor) :
    Acts s (.startDispatch id source)
      { s with dispatches := s.dispatches ++ [{ ticket := x, source }] }
  | dispatch {i : Nat} {o : DispatchOutside} {c : DispatchCall} {t : DispatchState}
    {phase : DispatchPhase} (hc : s.dispatches[i]? = some c)
    (hstep : s.dispatchStep o c = some (t, phase)) :
    Acts s (.dispatch i o) { t with dispatches := t.dispatches.set i { c with phase } }
  | startAck {args : AckArgs} : Acts s (.startAck args) { s with acks := s.acks ++ [{ args }] }
  | ack {i : Nat} {c : AckCall} {t : DispatchState} {phase : AckPhase}
    (hc : s.acks[i]? = some c) (hstep : s.ackStep c.args c.phase = some (t, phase)) :
    Acts s (.ack i) { t with acks := t.acks.set i { c with phase } }
  | startProgress {id : String} : Acts s (.startProgress id) { s with
      handlers := s.handlers ++ [{ ticketId := id }]
      history := .progress id :: s.history }
  | progress {i : Nat} {c : ProgressCall} {t : DispatchState} {phase : ProgressPhase}
    (hc : s.handlers[i]? = some c) (hstep : s.progressStep c = some (t, phase)) :
    Acts s (.progress i) { t with handlers := t.handlers.set i { c with phase } }
  | supervise {accounts : List Account} {rest : List String} : Acts s (.supervise accounts)
      { s with passes := s.passes ++ [{ now := s.clock, accounts, rest }] }
  | pass {i : Nat} {o : PassOutside} {p p' : Pass} {t : DispatchState}
    (hp : s.passes[i]? = some p) (hstep : s.passStep o p = some (t, p')) :
    Acts s (.pass i o) { t with passes := t.passes.set i p' }

theorem acts_of_act {s t : DispatchState} {a : DispatchAction} (h : s.act a = .ok t) :
    s.Acts a t := by
  cases a <;> simp only [act] at h
  case tick => split at h <;> cases h; exact .tick
  case output => cases h; exact .output
  case change => split at h <;> cases h; exact .change ‹_›
  case startDispatch =>
    split at h
    · cases h
    · split at h <;> cases h
      exact .startDispatch ‹_›
  case startAck => cases h; exact .startAck
  case startProgress =>
    split at h
    · cases h
    · split at h <;> cases h
      exact .startProgress
  case supervise => cases h; exact .supervise
  case dispatch =>
    split at h
    · cases h
    · split at h <;> cases h
      exact .dispatch ‹_› ‹_›
  case ack =>
    split at h
    · cases h
    · split at h <;> cases h
      exact .ack ‹_› ‹_›
  case progress =>
    split at h
    · cases h
    · split at h <;> cases h
      exact .progress ‹_› ‹_›
  case pass =>
    split at h
    · cases h
    · split at h <;> cases h
      exact .pass ‹_› ‹_›

/-- A statement of `applyManagerAck` reads, records a live process or forgets it, or is the last. -/
inductive Acks (s : DispatchState) (a : AckArgs) : AckPhase → DispatchState → Prop where
  | read {phase : AckPhase} (hlog : ∀ x, phase ≠ .log x) : Acks s a phase s
  | record {x r : Ticket} {now : Date} (hr : s.db.ticket? x.id = some r)
    (hsame : x.sameEpisode r = true) : Acks s a (.record x now) { s with
      db := s.db.update x.id (Ticket.recordLive (x.supervisor_live_since.getD now) now)
      history := .live x.id a.triggerId :: s.history }
  | clear {x r : Ticket} (hr : s.db.ticket? x.id = some r) (hsame : x.sameHolder r = true) :
    Acks s a (.clear x) { s with db := s.db.update x.id Ticket.clearLive }
  | log {x : Ticket} {row : ActivityRow} {action : AckOutcome}
    (haction : row.action = .dispatch_ack action) :
    Acks s a (.log x) { s with log := row :: s.log, nackRetryAt := s.noteNack a }

theorem acks_of_ackStep {s t : DispatchState} {a : AckArgs} {phase phase' : AckPhase}
    (h : s.ackStep a phase = some (t, phase')) : s.Acks a phase t := by
  cases phase <;> simp only [ackStep] at h
  case start =>
    split at h
    · cases h; exact .read (by simp)
    · split at h
      · cases h; exact .read (by simp)
      · split at h <;> cases h <;> exact .read (by simp)
  case live | unique | processed => split at h <;> cases h <;> exact .read (by simp)
  case record =>
    split at h
    · cases h; exact .read (by simp)
    · rename_i db hdb
      obtain ⟨rfl, r, hr, hsame⟩ := TicketDb.updateIf_eq_some hdb
      cases h
      exact .record hr hsame
  case clear x =>
    cases h
    cases hdb : s.db.updateIf x.id x.sameHolder Ticket.clearLive with
    | none => exact .read (by simp)
    | some db =>
      obtain ⟨rfl, r, hr, hsame⟩ := TicketDb.updateIf_eq_some hdb
      exact .clear hr hsame
  case log => cases h; exact .log rfl
  case returned => cases h

/-- What a statement of a pass does besides the pass itself. -/
inductive Passes (s : DispatchState) : DispatchState → Prop where
  | read {nackRetryAt : List NackRetry} {new : List DispatchCall} :
    Passes s { s with nackRetryAt, dispatches := s.dispatches ++ new }
  /-- Output since the start of the episode is seen. -/
  | output {x r : Ticket} (hr : s.db.ticket? x.id = some r) (hsame : x.sameRecord r = true)
    (hlater : x.supervisor_live_since.any (· < s.latestOutput x.id) = true) : Passes s { s with
      db := s.db.update x.id (Ticket.noteOutput (s.latestOutput x.id))
      history := .progress x.id :: s.history }
  | park {x : Ticket} {liveQuiet : Bool} : Passes s { s with
      db := s.db.update x.id (Ticket.park liveQuiet)
      history := if liveQuiet then s.history else .parked x.id :: s.history }
  | resend {x : Ticket} {count : Nat} : Passes s { s with
      db := s.db.update x.id (Ticket.countResend count)
      dispatches := s.dispatches ++ [{ ticket := x, source := .supervisor }] }

theorem Passes.refl (s : DispatchState) : s.Passes s := by
  have h : s.Passes { s with nackRetryAt := s.nackRetryAt, dispatches := s.dispatches ++ [] } :=
    .read
  rwa [List.append_nil] at h

theorem passes_parkStalled (s : DispatchState) (x : Ticket) (liveQuiet : Bool) :
    s.Passes (s.parkStalled x liveQuiet) := by
  unfold parkStalled
  split
  · exact .refl s
  · split
    · exact .refl s
    · rename_i db hdb
      obtain ⟨rfl, -⟩ := TicketDb.updateIf_eq_some hdb
      exact .park

theorem passes_of_passStep {s : DispatchState} {o : PassOutside} {p : Pass}
    {r : DispatchState × Pass} (h : s.passStep o p = some r) : s.Passes r.1 := by
  unfold passStep at h
  split at h
  · split at h
    · cases h; exact .refl s
    · cases h
      unfold passNext
      repeat' split
      all_goals first | exact .refl s | exact .read
  · cases h
    unfold passOutput
    dsimp only
    split
    · split
      · exact .refl s
      · rename_i hlater _ db hdb
        obtain ⟨rfl, r, hr, hsame⟩ := TicketDb.updateIf_eq_some hdb
        exact .output hr hsame hlater
    · exact .refl s
  · split at h
    · cases h; exact passes_parkStalled s _ true
    · cases h; exact .refl s
  · split at h
    · cases h; exact .refl s
    · cases h
      unfold passDue
      split
      · exact passes_parkStalled s _ false
      · split
        · exact .refl s
        · rename_i db hdb
          obtain ⟨rfl, -⟩ := TicketDb.updateIf_eq_some hdb
          exact .resend
  · split at h <;> cases h
    exact .refl s
  · cases h

end DispatchState

/-- Any calls in any interleaving, on tickets that have not been supervised yet. -/
def dispatchSystem : Transition DispatchState DispatchAction where
  init s := (s.db.tickets.map (·.id)).Nodup ∧
    (∀ t ∈ s.db.tickets, t.supervisor_redispatches = 0 ∧ t.supervisor_live_since = none ∧
      t.supervisor_live_at = none ∧ t.last_dispatched_at = none) ∧
    s.log = [] ∧ s.nackRetryAt = [] ∧ s.dispatches = [] ∧ s.acks = [] ∧ s.handlers = [] ∧
    s.passes = [] ∧ s.history = []
  step s a t := s.act a = .ok t

end WorkflowBoard.Tickets
