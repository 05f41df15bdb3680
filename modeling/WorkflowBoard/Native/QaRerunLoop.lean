import WorkflowBoard.Native.QaFailureTickets
import WorkflowBoard.Native.QaRuns

/-!
# Failure, fix and rerun (`qa-failure-ticket.service.ts`, `qa-rerun-on-fix.service.ts`)

The runs of one scenario that dedupes by its open ticket, the tickets they file, the moves of
these tickets and the reruns that a ticket which enters `done` starts. A statement of the
database is a step, and any number of calls are between two of theirs at once: a run may be
finalised more than once, by its agent and by the reaper.

A scenario may be edited between the steps, but for the maximum of its reruns. The handling of an
activity is in memory, and so are its timer and its wait for a deployment: each may be lost. Reads
between two statements whose result reaches neither the tags, the project nor the status of a
ticket are left out, and so are the comments and the messages.
-/

namespace WorkflowBoard.Qa

open WorkflowBoard.Tickets

/-- A ticket with the stamp of its rerun. `filed` holds if a failed run filed it, `entered` from
    when it is first finished; no step depends on these two. -/
structure FixTicket where
  row : Ticket
  qa_rerun_dispatched_at : Option Date := none
  filed : Bool := false
  entered : Bool := false

/-- `cause` is the handled activity that started a rerun. -/
structure LoopRun where
  policy : ResultPolicy
  rerun_generation : Nat := 0
  status : QaRunStatus := .running
  auto_ticket_id : Option Nat := none
  cause : Option Nat := none

/-- Where `maybeCreateOnFailure` is. `seen` is the number of tickets there were at the search. -/
inductive FilingPhase where
  | searching
  | recurring (ticket : Nat)
  | resolving (seen : Nat)
  | inserting (seen : Nat) (project : Option String)
  | stamping (ticket : Nat)

inductive LoopCall where
  | filing (run generation : Nat) (policy : ResultPolicy) (phase : FilingPhase)
  /-- `maybeCloseSiblingsOnPass`, before its query and with the tickets that are left. -/
  | sweeping (policy : ResultPolicy)
  | closing (tickets : List Nat)
  /-- `TicketService.move`; `auto` for the actor of the sweep. -/
  | loading (ticket : Nat) (status : TicketStatus) (auto : Bool)
  | moving (ticket : Nat) (entity : FixTicket) (reread : Option FixTicket) (auto : Bool)
  | ended

/-- Where the handling of an activity is. A rerun waits for its turn, its timer or, where it is
    `gated`, a deployment. -/
inductive HandlerPhase where
  | moved
  | claiming (gen : Nat)
  | gating (generation : Nat)
  | waiting (generation : Nat) (gated : Bool)
  | ended
deriving DecidableEq

structure Handler where
  ticket : Nat
  phase : HandlerPhase := .moved
deriving DecidableEq

/-- Tickets, runs, calls and handled activities are known by their place. `chains` counts the
    filings that do not continue a rerun and the tickets that enter `done` again. -/
structure LoopState where
  tickets : List FixTicket
  runs : List LoopRun := []
  calls : List LoopCall := []
  handlers : List Handler := []
  chains : Nat := 0

/-- `_resolveMaxAttempts`. -/
def resolveMaxAttempts (raw : Option Int) : Int := raw.getD 3

namespace LoopState

variable (w : QaWorld)

def setCall (s : LoopState) (k : Nat) (c : LoopCall) : LoopState :=
  { s with calls := s.calls.set k c }

def setHandler (s : LoopState) (k : Nat) (h : Handler) : LoopState :=
  { s with handlers := s.handlers.set k h }

/-- The tickets whose row satisfies `p`, by creation. -/
def ticketsWhere (s : LoopState) (p : Ticket → Bool) : List Nat :=
  (List.range s.tickets.length).filter fun i => (s.tickets[i]?).any fun t => p t.row

/-- A run is dispatched. -/
def dispatch (s : LoopState) (p : ResultPolicy) (generation : Nat) (cause : Option Nat) :
    Option LoopState :=
  if p.dedupes then
    some { s with runs := s.runs ++ [{ policy := p, rerun_generation := generation, cause }] }
  else none

/-- A run ends and its result is processed, with the entity in hand; that shows the run's ticket
    if it is `fresh`. -/
def finalize (s : LoopState) (k : Nat) (status : QaRunStatus) (fresh : Bool) (run : LoopRun) :
    Option LoopState :=
  if status.isTerminal = false then none else
  let s' := { s with runs := s.runs.set k { run with status } }
  let cfg := run.policy.on_failure_ticket
  if cfg.enabled = false then some s'
  else if status = .passed then some { s' with calls := s.calls ++ [.sweeping run.policy] }
  else if fresh ∧ run.auto_ticket_id.isSome then some s'
  else
    let phase := if run.policy.dedupes then .searching else .resolving s.tickets.length
    some { s' with
      calls := s.calls ++ [.filing k run.rerun_generation run.policy phase]
      chains := s.chains + if run.cause.isSome ∧ run.status = .running then 0 else 1 }

/-- The next statement of `maybeCreateOnFailure`. -/
def fileNext (s : LoopState) (now : Date) (k run generation : Nat) (p : ResultPolicy) :
    FilingPhase → LoopState
  | .searching =>
    match (s.ticketsWhere (isOpenScenarioTicket w p)).getLast? with
    | some ticket => s.setCall k (.filing run generation p (.recurring ticket))
    | none => s.setCall k (.filing run generation p (.resolving s.tickets.length))
  | .recurring ticket => s.setCall k (.filing run generation p (.stamping ticket))
  | .resolving seen => s.setCall k (.filing run generation p (.inserting seen (p.filedProject w)))
  | .inserting _ project =>
    { s with
      tickets := s.tickets ++ [{ row := failureTicket w p generation project now, filed := true }]
      calls := s.calls.set k (.filing run generation p (.stamping s.tickets.length)) }
  | .stamping ticket =>
    { s with
      runs := s.runs.modify run fun r => { r with auto_ticket_id := some ticket }
      calls := s.calls.set k .ended }

/-- The write of a move, which may take back the stamp of a rerun, and its activity. -/
def saveMove (s : LoopState) (k i : Nat) (entity reread : FixTicket) (auto : Bool)
    (t : FixTicket) : LoopState :=
  let enters := entity.row.status = .done
  let fires := enters ∧ entity.row.parent_id = none ∧ auto = false
  { s with
    tickets := s.tickets.set i
      { t with
        row := entity.row.save reread.row t.row
        qa_rerun_dispatched_at := saveColumn entity.qa_rerun_dispatched_at
          reread.qa_rerun_dispatched_at t.qa_rerun_dispatched_at
        entered := t.entered || enters }
    calls := s.calls.set k .ended
    handlers := if fires then s.handlers ++ [{ ticket := i }] else s.handlers
    chains := s.chains + if fires ∧ t.entered then 1 else 0 }

/-- The next statement of a call. `position` is the end of the lane a ticket moves to. -/
def callNext (s : LoopState) (now : Date) (position : Int) (k : Nat) : LoopCall → Option LoopState
  | .filing run generation p phase => some (s.fileNext w now k run generation p phase)
  | .sweeping p => some (s.setCall k (.closing (s.ticketsWhere (isOpenAutoTicket w p))))
  | .closing [] => some (s.setCall k .ended)
  | .closing (i :: rest) =>
    -- The ticket is read again; the sweep does not wait for the move here.
    (s.tickets[i]?).map fun t =>
      let s' := s.setCall k (.closing rest)
      if t.row.archived_at.isSome ∨ t.row.status = .done then s'
      else { s' with calls := s'.calls ++ [.loading i .done true] }
  | .loading i status auto =>
    (s.tickets[i]?).map fun t =>
      if t.row.archived_at.isSome then s.setCall k .ended
      else
        match t.row.move? status none position now with
        | some row => s.setCall k (.moving i { t with row } none auto)
        | none => s.setCall k .ended
  | .moving i entity none auto =>
    (s.tickets[i]?).map fun t => s.setCall k (.moving i entity (some t) auto)
  | .moving i entity (some reread) auto =>
    (s.tickets[i]?).map (s.saveMove k i entity reread auto)
  | .ended => none

/-- The next statement of `_handleActivity`. `cfg` and `environment` are what the scenario says,
    `satisfied` whether the environment runs the fix. -/
def handle (s : LoopState) (now : Date) (cfg : QaOnFailureTicketConfig) (environment : String)
    (satisfied : Bool) (k : Nat) (h : Handler) : Option LoopState :=
  let maxAttempts := resolveMaxAttempts w.max_rerun_attempts
  match h.phase with
  | .moved =>
    (s.tickets[h.ticket]?).map fun t =>
      if t.row.status = .done ∧ t.row.terminal_entered_at.isSome ∧
          defaultTags.all (· ∈ t.row.tags) ∧ parseScenarioId t.row.tags = some w.scenario_id ∧
          cfg.enabled ∧ cfg.rerun_on_fix ∧ 0 < maxAttempts then
        s.setHandler k { h with phase := .claiming (parseGeneration t.row.tags) }
      else s.setHandler k { h with phase := .ended }
  | .claiming gen =>
    (s.tickets[h.ticket]?).map fun t =>
      if t.row.terminal_entered_at.any fun at_ => t.qa_rerun_dispatched_at.all (· < at_) then
        let s' := { s with
          tickets := s.tickets.set h.ticket { t with qa_rerun_dispatched_at := some now } }
        if maxAttempts ≤ gen then s'.setHandler k { h with phase := .ended }
        else if cfg.deployment_gate ∧ environment ≠ "" then
          s'.setHandler k { h with phase := .gating (gen + 1) }
        else s'.setHandler k { h with phase := .waiting (gen + 1) false }
      else s.setHandler k { h with phase := .ended }
  | .gating generation =>
    if satisfied then some (s.setHandler k { h with phase := .waiting generation false })
    else if ⟨h.ticket, .waiting generation true⟩ ∈ s.handlers then
      some (s.setHandler k { h with phase := .ended })
    else some (s.setHandler k { h with phase := .waiting generation true })
  | .waiting .. | .ended => none

/-- `_startRerun`, where the run is dispatched. -/
def startRerun (s : LoopState) (p : ResultPolicy) (k : Nat) (h : Handler) : Option LoopState :=
  match h.phase with
  | .waiting generation _ =>
    (s.setHandler k { h with phase := .ended }).dispatch p generation (some k)
  | _ => none

end LoopState

inductive LoopAction where
  /-- A run that is not a rerun. -/
  | start (p : ResultPolicy)
  | finalize (k : Nat) (status : QaRunStatus) (fresh : Bool)
  | move (ticket : Nat) (status : TicketStatus)
  | next (k : Nat) (now : Date) (position : Int)
  | throws (k : Nat)
  | handle (k : Nat) (now : Date) (cfg : QaOnFailureTicketConfig) (environment : String)
      (satisfied : Bool)
  | fire (k : Nat) (p : ResultPolicy)
  /-- A handled activity ends without a rerun: the dispatch fails, or the process does. -/
  | drop (k : Nat)

/-- One statement, if there is one. -/
def LoopAction.run (w : QaWorld) (s : LoopState) : LoopAction → Option LoopState
  | start p => s.dispatch p 0 none
  | finalize k status fresh => (s.runs[k]?).bind (s.finalize k status fresh)
  | move ticket status => some { s with calls := s.calls ++ [.loading ticket status false] }
  | next k now position => (s.calls[k]?).bind (s.callNext w now position k)
  | throws k => (s.calls[k]?).map fun _ => s.setCall k .ended
  | handle k now cfg environment satisfied =>
    (s.handlers[k]?).bind (s.handle w now cfg environment satisfied k)
  | fire k p => (s.handlers[k]?).bind (s.startRerun p k)
  | drop k => (s.handlers[k]?).map fun h => s.setHandler k { h with phase := .ended }

/-- The loop of one scenario, from a table of tickets that no run has filed. -/
def loopSystem (w : QaWorld) : Transition LoopState LoopAction where
  init s := (∀ t ∈ s.tickets, t.filed = false) ∧ s.runs = [] ∧ s.calls = [] ∧ s.handlers = [] ∧
    s.chains = 0
  step s a s' := a.run w s = some s'

end WorkflowBoard.Qa
