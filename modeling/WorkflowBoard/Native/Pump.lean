import Mathlib.Data.List.Sort
import WorkflowBoard.Native.Dispatch

/-!
# Starting queued tickets (`modules/agents/ticket-dispatch.service.ts`, `pump` / `runningCounts`)

A pass reads the queue, the accounts and the running tickets of each identity once. It then goes
through the queue: a ticket whose identity has room is claimed with one conditional update, and
its dispatch is awaited before the next ticket gets its turn.

The passes of one process follow each other (`pumpChain`); those of two processes interleave.
The dispatcher itself and the changes of tickets by people are those of `dispatchSystem`.
-/

namespace WorkflowBoard.Tickets

/-! ## The order of the queue (`priority.ts`) -/

def priorityOrder : List String := ["critical", "high", "medium", "low"]

/-- An unknown priority comes last, an empty one counts as medium. -/
def priorityIndex (priority : String) : Nat :=
  priorityOrder.idxOf (if priority = "" then "medium" else priority).toLower

/-- The comparison of the sort: priority, position, age. -/
def queueOrder (a b : Ticket) : Int :=
  let byPriority : Int := priorityIndex a.priority - priorityIndex b.priority
  let byPosition := a.position - b.position
  if byPriority ≠ 0 then byPriority
  else if byPosition ≠ 0 then byPosition
  else a.created_at - b.created_at

/-! ## The reads of a pass -/

structure PumpFilter where
  accountId : Option String := none
  assigneeKey : Option String := none
deriving DecidableEq

/-- The tickets that wait to be started. An empty filter is no filter. -/
def Ticket.queued (filter : PumpFilter) (t : Ticket) : Bool :=
  t.status = .todo && t.archived_at.isNone && t.parent_id.isNone &&
  t.canonical_ticket_id.isNone && !t.isPending &&
  (match filter.assigneeKey with
    | some key => if key = "" then t.assignee_key ≠ "" else t.assignee_key = key
    | none => t.assignee_key ≠ "") &&
  (match filter.accountId with
    | some id => id = "" || t.account_id = id
    | none => true)

/-- The tickets that occupy their identity. -/
def Ticket.running (t : Ticket) : Bool :=
  t.status = .in_progress && t.archived_at.isNone && t.parent_id.isNone && !t.isPending

/-- `Map.get`, 0 if there is no entry. -/
def countOf (counts : List (String × Nat)) (key : String) : Nat :=
  (counts.lookup key).getD 0

/-- `Map.set`. -/
def setCount (counts : List (String × Nat)) (key : String) (n : Nat) : List (String × Nat) :=
  (key, n) :: counts.filter (·.1 ≠ key)

/-- Non-pending, non-archived `in_progress` tickets per assignee identity, over all accounts. -/
def runningCounts (db : TicketDb) (keys : List String) : List (String × Nat) :=
  (db.tickets.filter fun t => t.running && keys.contains t.assignee_key).foldl
    (fun out row => setCount out row.assignee_key (countOf out row.assignee_key + 1)) []

def accountsById (accounts : List Account) (ids : List String) : List Account :=
  accounts.filter fun a => ids.contains a.id

/-- How many tickets an identity may work on for the account. -/
def Account.capacity (account : Account) : Nat :=
  max 1 (if account.max_concurrent_tickets_per_agent = 0 then 1
    else account.max_concurrent_tickets_per_agent)

/-! ## The passes -/

/-- `start` is before the look whether the instance is quiesced, `queue`, `accounts` and `counts`
    before these reads, `idle` before the turn of the next ticket, `claimed` before the dispatch of
    the claimed ticket, `waiting` during the dispatch with that number. -/
inductive PumpPhase where
  | start
  | queue
  | accounts
  | counts
  | idle
  | claimed (ticket : Ticket)
  | waiting (dispatch : Nat)
  | returned
deriving DecidableEq

/-- `rest` are the entities whose turn is still to come, as they were loaded. -/
structure PumpPass where
  process : Nat
  filter : PumpFilter
  phase : PumpPhase := .start
  rest : List Ticket := []
  accounts : List Account := []
  running : List (String × Nat) := []
  started : Nat := 0
deriving DecidableEq

/-- What a statement of a pass meets: the quiesce flag and the connections of the hosts. -/
structure PumpOutside where
  quiesced : Bool := false
  reachable : Bool := true

/-- A claim of a pass: the ticket, the identity it is assigned to at that moment, the running
    tickets of this identity right before the claim, and its capacity. -/
structure ClaimRecord where
  ticketId : String
  assignee_key : String
  running : Nat
  capacity : Nat
deriving DecidableEq

/-- The dispatcher, the accounts and the passes. `claims` is a record of the run: no step depends
    on it. -/
structure PumpState where
  base : DispatchState
  accounts : List Account
  passes : List PumpPass
  claims : List ClaimRecord

namespace PumpState

/-- The tickets that occupy the identity now. -/
def runningCount (s : PumpState) (key : String) : Nat :=
  s.base.db.tickets.countP fun t => t.running && t.assignee_key = key

/-- The capacity that is configured now. -/
def capacityOf (s : PumpState) (accountId : String) : Nat :=
  ((s.accounts.find? (·.id = accountId)).map Account.capacity).getD 1

/-- The conditional update of a claim. -/
def claim (s : PumpState) (id : String) : Option PumpState :=
  match s.base.db.ticket? id with
  | none => none
  | some row =>
    match s.base.db.updateIf id (·.status = .todo) Ticket.start with
    | none => none
    | some db => some { s with
        base := { s.base with db }
        claims := {
          ticketId := id
          assignee_key := row.assignee_key
          running := s.runningCount row.assignee_key
          capacity := s.capacityOf row.account_id } :: s.claims }

/-- The turn of the next ticket. -/
def turn (s : PumpState) (o : PumpOutside) (p : PumpPass) (t : Ticket) : PumpState × PumpPass :=
  match p.accounts.find? (·.id = t.account_id) with
  | none => (s, p)
  | some account =>
    if account.dispatch_paused then (s, p)
    else
      let inFlight := countOf p.running t.assignee_key
      if inFlight ≥ account.capacity then (s, p)
      else if t.assignee.isNone then (s, p)
      else if !o.reachable then (s, p)
      else
        match s.claim t.id with
        | none => (s, p)
        | some s' => (s', { p with
            running := setCount p.running t.assignee_key (inFlight + 1)
            phase := .claimed t.start })

/-- The next statement of a pass. -/
def passStep (s : PumpState) (o : PumpOutside) (p : PumpPass) : Option (PumpState × PumpPass) :=
  match p.phase with
  | .start => some (s, { p with phase := if o.quiesced then .returned else .queue })
  | .queue =>
    let queued := (s.base.db.tickets.filter (Ticket.queued p.filter)).take 500
    let sorted := queued.insertionSort fun a b => queueOrder a b ≤ 0
    some (s, { p with rest := sorted, phase := if queued.isEmpty then .returned else .accounts })
  | .accounts =>
    let ids := (p.rest.map (·.account_id)).filter (· ≠ "")
    some (s, { p with accounts := accountsById s.accounts ids, phase := .counts })
  | .counts =>
    let keys := p.rest.map (·.assignee_key)
    some (s, { p with running := runningCounts s.base.db keys, phase := .idle })
  | .idle =>
    match p.rest with
    | [] => some (s, { p with phase := .returned })
    | t :: rest => some (s.turn o { p with rest } t)
  | .claimed t =>
    let dispatches := s.base.dispatches ++ [{ ticket := t, source := .start }]
    some ({ s with base := { s.base with dispatches } },
      { p with phase := .waiting s.base.dispatches.length })
  | .waiting k =>
    match s.base.dispatches[k]? with
    | some { phase := .returned reason, .. } =>
      some (s, { p with phase := .idle, started := p.started + if reason.isNone then 1 else 0 })
    | _ => none
  | .returned => none

end PumpState

inductive PumpAction where
  | other (a : DispatchAction)
  | create (t : Ticket)
  | setAccount (account : Account)
  | pump (process : Nat) (filter : PumpFilter)
  | pass (i : Nat) (outside : PumpOutside)

/-- A new ticket has a new id; a process starts a pass when its last one has returned. -/
def PumpState.act (s : PumpState) : PumpAction → Except String PumpState
  | .other a =>
    match s.base.act a with
    | .error e => .error e
    | .ok base => .ok { s with base }
  | .create t =>
    if (s.base.db.ticket? t.id).isSome then .error "id"
    else .ok { s with base :=
      { s.base with db := { s.base.db with tickets := s.base.db.tickets ++ [t] } } }
  | .setAccount account =>
    .ok { s with accounts := account :: s.accounts.filter (·.id ≠ account.id) }
  | .pump process filter =>
    if s.passes.any fun p => p.process = process && p.phase ≠ .returned then .error "pumpChain"
    else .ok { s with passes := s.passes ++ [{ process, filter }] }
  | .pass i o =>
    match s.passes[i]? with
    | none => .error "no such call"
    | some p =>
      match s.passStep o p with
      | none => .error "no statement to run"
      | some (t, p) => .ok { t with passes := t.passes.set i p }

/-- Any number of passes next to everything the dispatcher does. -/
def pumpSystem : Transition PumpState PumpAction where
  init s := (s.base.db.tickets.map (·.id)).Nodup ∧ s.passes = [] ∧ s.claims = []
  step s a t := s.act a = .ok t

end WorkflowBoard.Tickets
