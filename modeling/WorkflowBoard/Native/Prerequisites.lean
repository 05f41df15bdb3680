import WorkflowBoard.ForStd.Search
import WorkflowBoard.ForStd.Transition
import WorkflowBoard.Native.JsString
import WorkflowBoard.Native.Tickets

/-!
# Prerequisite links (`modules/tickets/ticket-prerequisites.service.ts`)

`addPrerequisites` and `removePrerequisite`, one database statement at a time. A call is
the arguments of the request and the phase it is in; `advance` runs the next statement of
one call, so a list of calls advanced in any order is an interleaving of requests. The
insert transaction is one statement.

The walk of `wouldCreateCycle` reads the links of one ticket in each turn of its loop, from
the table as it is at that moment.
-/

namespace WorkflowBoard.Tickets

/-! ## `addPrerequisites` -/

structure AddRequest where
  ticketId : String
  prereqIds : List String
  reason : String := ""
  actorName : String := ""

/-- Trimmed, without the empty ones, each id once. -/
def AddRequest.dedup (req : AddRequest) : List String :=
  ((req.prereqIds.map trimText).filter (· ≠ "")).eraseDups

structure AddResult where
  added : List TicketPrerequisite
  pending_on_tickets : Bool
  ticket : Ticket
deriving DecidableEq

/-- The ticket a link is added to. -/
def readTicket (db : TicketDb) (ticketId : String) : Except String Ticket :=
  match db.ticket? ticketId with
  | none => .error "Ticket not found"
  | some ticket => if ticket.archived_at.isSome then .error "Ticket is archived" else .ok ticket

/-- The checks of one candidate. -/
def checkCandidate (db : TicketDb) (ticketId : String) (ticket : Ticket) (pid : String) :
    Except String Unit :=
  if pid = ticketId then .error "A ticket cannot be its own prerequisite" else
  match db.ticket? pid with
  | none => .error s!"Prerequisite ticket not found: {pid}"
  | some row =>
    if row.archived_at.isSome then .error s!"Prerequisite ticket is archived: {pid}"
    else if ticket.account_id ≠ "" ∧ row.account_id ≠ "" ∧ row.account_id ≠ ticket.account_id then
      .error s!"Prerequisite must be in the same account: {pid}"
    else .ok ()

def cycleError (ticketId pid : String) : String :=
  s!"Adding {pid} as a prerequisite of {ticketId} would create a cycle"

/-- The rows the transaction saves: one for each id that has no row yet. The ids are distinct,
    so a row saved for one of them does not hide another. -/
def missingLinks (db : TicketDb) (req : AddRequest) (validated : List String) :
    List TicketPrerequisite :=
  (validated.filter fun pid => !db.hasLink req.ticketId pid).map fun pid =>
    { ticket_id := req.ticketId, prerequisite_ticket_id := pid,
      created_by := req.actorName, reason := trimText req.reason }

/-- The insert transaction. `ticket` is the row as it was read at the start of the call; the
    flag and the reason are written only where they differ from that row. -/
def insertTransaction (db : TicketDb) (req : AddRequest) (ticket : Ticket)
    (validated : List String) : TicketDb × AddResult :=
  let added := missingLinks db req validated
  let db : TicketDb := { db with links := db.links ++ added }
  let next := anyPrereqOpen db (db.linksOf req.ticketId)
  let (db, ticket) :=
    if ticket.pending_on_tickets ≠ next then
      (db.update ticket.id fun t => { t with pending_on_tickets := next },
        { ticket with pending_on_tickets := next })
    else (db, ticket)
  let reason := trimText req.reason
  let (db, ticket) :=
    if reason ≠ "" ∧ ticket.pending_reason = "" then
      (db.update ticket.id fun t => { t with pending_reason := reason },
        { ticket with pending_reason := reason })
    else (db, ticket)
  (db, ⟨added, ticket.pending_on_tickets, ticket⟩)

/-- Where an `addPrerequisites` call is. `checkedAt` is how many links had ever been inserted
    when its cycle check began; the code does not keep it and no step depends on it. -/
inductive AddPhase where
  | start
  | validating (ticket : Ticket) (validated rest : List String)
  | checking (ticket : Ticket) (validated : List String) (checkedAt : Nat) (pid : String)
      (rest : List String) (search : Search String)
  | inserting (ticket : Ticket) (validated : List String) (checkedAt : Nat)
  | returned (result : Except String AddResult)

/-- On to the next candidate of the cycle check, or to the transaction after the last. -/
def checkNext (req : AddRequest) (ticket : Ticket) (validated : List String) (checkedAt : Nat) :
    List String → AddPhase
  | [] => .inserting ticket validated checkedAt
  | pid :: rest =>
    if req.ticketId = pid then .returned (.error (cycleError req.ticketId pid))
    else .checking ticket validated checkedAt pid rest (.start pid)

/-- The next statement of an `addPrerequisites` call: the database after it and the phase the
    call is in then; `none` once the call has returned. `inserted` is the number of links ever
    inserted. -/
def addStep (db : TicketDb) (inserted : Nat) (req : AddRequest) :
    AddPhase → Option (TicketDb × AddPhase)
  | .start =>
    if req.dedup = [] then
      some (db, .returned (.error "prerequisite_ticket_ids must be a non-empty array"))
    else
      match readTicket db req.ticketId with
      | .error e => some (db, .returned (.error e))
      | .ok ticket => some (db, .validating ticket [] req.dedup)
  | .validating ticket validated (pid :: rest) =>
    match checkCandidate db req.ticketId ticket pid with
    | .error e => some (db, .returned (.error e))
    | .ok () => some (db, .validating ticket (validated ++ [pid]) rest)
  | .validating ticket validated [] =>
    some (db, checkNext req ticket validated inserted validated)
  | .checking ticket validated checkedAt pid rest search =>
    match search.turn (Search.successors db.edges) req.ticketId with
    | .found => some (db, .returned (.error (cycleError req.ticketId pid)))
    | .exhausted => some (db, checkNext req ticket validated checkedAt rest)
    | .more search => some (db, .checking ticket validated checkedAt pid rest search)
  | .inserting ticket validated _ =>
    let out := insertTransaction db req ticket validated
    some (out.1, .returned (.ok out.2))
  | .returned _ => none

/-! ## A call that runs alone -/

/-- The walk of `wouldCreateCycle` on a table that nobody changes, for at most `fuel` turns of its
    loop; `none` if they did not suffice. -/
def wouldCreateCycleWithin (fuel : Nat) (db : TicketDb) (ticketId candidatePrereqId : String) :
    Option Bool :=
  if ticketId = candidatePrereqId then some true
  else Search.run (Search.successors db.edges) ticketId fuel (.start candidatePrereqId)

/-- The statements of a call one after the other from a phase on, at most `fuel` of them: the
    database after it and what it returns. -/
def addRun (req : AddRequest) : Nat → TicketDb → AddPhase →
    Option (TicketDb × Except String AddResult)
  | 0, _, _ => none
  | _ + 1, db, .returned result => some (db, result)
  | fuel + 1, db, phase =>
    match addStep db 0 req phase with
    | none => none
    | some (db, phase) => addRun req fuel db phase

def addPrerequisitesWithin (fuel : Nat) (db : TicketDb) (req : AddRequest) :
    Option (TicketDb × Except String AddResult) :=
  addRun req fuel db .start

/-! ## `removePrerequisite` -/

structure RemoveRequest where
  ticketId : String
  prereqTicketId : String

structure RemoveResult where
  removed : Bool
  pending_on_tickets : Bool

/-- Where a `removePrerequisite` call is; the phases from `evaluating` on are those of
    `evaluatePendingForDependent`. -/
inductive RemovePhase where
  | start
  | looking (ticket : Ticket)
  | deleting
  | evaluating
  | readingLinks (was : Bool)
  | readingPrereqs (was : Bool) (rows : List TicketPrerequisite)
  | writing (was next : Bool)
  | returned (result : Except String RemoveResult)

def removeStep (db : TicketDb) (req : RemoveRequest) : RemovePhase → Option (TicketDb × RemovePhase)
  | .start =>
    match db.ticket? req.ticketId with
    | none => some (db, .returned (.error "Ticket not found"))
    | some ticket => some (db, .looking ticket)
  | .looking ticket =>
    if db.hasLink req.ticketId req.prereqTicketId then some (db, .deleting)
    else some (db, .returned (.ok ⟨false, ticket.pending_on_tickets⟩))
  | .deleting => some (db.deleteLink req.ticketId req.prereqTicketId, .evaluating)
  | .evaluating =>
    match db.ticket? req.ticketId with
    | none => some (db, .returned (.ok ⟨true, false⟩))
    | some ticket => some (db, .readingLinks ticket.pending_on_tickets)
  | .readingLinks was => some (db, .readingPrereqs was (db.linksOf req.ticketId))
  | .readingPrereqs was [] => some (db, .writing was false)
  | .readingPrereqs was (row :: rows) =>
    if prereqOpen db row then some (db, .writing was true)
    else some (db, .readingPrereqs was rows)
  | .writing was next =>
    let db := if next ≠ was then
      db.update req.ticketId fun t => { t with pending_on_tickets := next } else db
    some (db, .returned (.ok ⟨true, next⟩))
  | .returned _ => none

/-! ## Any number of calls -/

inductive PrereqCall where
  | add (req : AddRequest) (phase : AddPhase)
  | remove (req : RemoveRequest) (phase : RemovePhase)

/-- The database, the calls made so far, and the links ever inserted in their order. The last
    is a record of the run: no step depends on it. -/
structure PrereqState where
  db : TicketDb
  calls : List PrereqCall
  inserted : List (String × String)

inductive PrereqAction where
  | add (req : AddRequest)
  | remove (req : RemoveRequest)
  | advance (i : Nat)

/-- The links a call has inserted when it reaches a phase: those it returns. -/
def AddPhase.added : AddPhase → List (String × String)
  | .returned (.ok result) => result.added.map fun l => (l.ticket_id, l.prerequisite_ticket_id)
  | _ => []

/-- Run the next statement of one call. -/
def PrereqState.advance (s : PrereqState) (i : Nat) : Option PrereqState :=
  match s.calls[i]? with
  | none => none
  | some (.add req phase) =>
    (addStep s.db s.inserted.length req phase).map fun (db, phase) =>
      { db, calls := s.calls.set i (.add req phase), inserted := s.inserted ++ phase.added }
  | some (.remove req phase) =>
    (removeStep s.db req phase).map fun (db, phase) =>
      { s with db, calls := s.calls.set i (.remove req phase) }

/-- A new request, or the next statement of a call. -/
def PrereqState.act (s : PrereqState) : PrereqAction → Except String PrereqState
  | .add req => .ok { s with calls := s.calls ++ [.add req .start] }
  | .remove req => .ok { s with calls := s.calls ++ [.remove req .start] }
  | .advance i =>
    match s.advance i with
    | some t => .ok t
    | none => .error "no statement to run"

/-- Any interleaving of requests on a board that has any tickets and no links. -/
def prereqSystem : Transition PrereqState PrereqAction where
  init s := s.db.links = [] ∧ s.calls = [] ∧ s.inserted = []
  step s a t := s.act a = .ok t

end WorkflowBoard.Tickets
