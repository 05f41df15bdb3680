import WorkflowBoard.ForStd.Except
import WorkflowBoard.Native.Prerequisites
import WorkflowBoard.Native.TicketDuplicate

/-!
# The pending flag (`ticket-prerequisites.service.ts`, `tickets.controller.ts`, `onDone`)

`pending_on_tickets` says that a ticket waits for others. It is evaluated where links are added
or removed, where a prerequisite is deleted, and by the dispatcher after a prerequisite was moved
to done. This module has the operations on a board as completed calls, one after another, next to
the `moved` activities that the dispatcher still has to handle.

The texts of comments and the dispatch of tickets that became free are not part of it.
-/

namespace WorkflowBoard.Tickets

/-! ## Evaluating the flag -/

def Ticket.setPendingOnTickets (value : Bool) (t : Ticket) : Ticket :=
  { t with pending_on_tickets := value }

namespace TicketDb

/-- `evaluatePendingForDependentScoped`. -/
def evaluatePending (db : TicketDb) (id : String) : TicketDb :=
  match db.ticket? id with
  | none => db
  | some t =>
    let next := anyPrereqOpen db (db.linksOf id)
    if next ≠ t.pending_on_tickets then db.update id (Ticket.setPendingOnTickets next) else db

/-- The tickets that wait for the given one, each once. -/
def dependents (db : TicketDb) (id : String) : List String :=
  ((db.links.filter (·.prerequisite_ticket_id = id)).map (·.ticket_id)).eraseDups

/-- The loop of `_reevaluateAndCollectFlips`. -/
def reevaluate (db : TicketDb) (ids : List String) : TicketDb :=
  ids.foldl evaluatePending db

/-- The links to a ticket are deleted. -/
def deleteLinksTo (db : TicketDb) (id : String) : TicketDb :=
  { db with links := db.links.filter (·.prerequisite_ticket_id ≠ id) }

/-- The ids and those of their children, level by level (`ON DELETE CASCADE` of `parent_id`). -/
def cascade (db : TicketDb) : Nat → List String → List String
  | 0, ids => ids
  | n + 1, ids =>
    let children := db.tickets.filter fun t => t.parent_id.any (· ∈ ids) && t.id ∉ ids
    db.cascade n (ids ++ children.map (·.id))

/-- The rows of the tickets and their links are gone. -/
def remove (db : TicketDb) (ids : List String) : TicketDb where
  tickets := db.tickets.filter (·.id ∉ ids)
  links := db.links.filter fun l => l.ticket_id ∉ ids && l.prerequisite_ticket_id ∉ ids

/-- The archive date of the root of a ticket. -/
def getRootArchivedAt (db : TicketDb) (t : Ticket) : Option Date :=
  let up := fun cursor : Option Ticket => cursor.bind fun c =>
    match c.parent_id with
    | none => some c
    | some parent => db.ticket? parent
  (up (up (up (some t)))).bind (·.archived_at)

end TicketDb

/-! ## Completed calls -/

/-- `wouldCreateCycle`, on a table that does not change meanwhile. -/
def wouldCreateCycle (db : TicketDb) (ticketId candidatePrereqId : String) : Bool :=
  ticketId = candidatePrereqId || Search.reaches db.edges candidatePrereqId ticketId

/-- An `addPrerequisites` call without another in between. -/
def addPrerequisites (db : TicketDb) (req : AddRequest) : Except String (TicketDb × AddResult) := do
  require (req.dedup ≠ []) "prerequisite_ticket_ids must be a non-empty array"
  let ticket ← readTicket db req.ticketId
  req.dedup.forM (checkCandidate db req.ticketId ticket)
  req.dedup.forM fun pid =>
    require (!wouldCreateCycle db req.ticketId pid) (cycleError req.ticketId pid)
  return insertTransaction db req ticket req.dedup

/-- A `removePrerequisite` call without another in between: `none` if there is no such link. -/
def removePrerequisite (db : TicketDb) (req : RemoveRequest) : Except String (Option TicketDb) :=
  match db.ticket? req.ticketId with
  | none => .error "Ticket not found"
  | some _ =>
    if db.hasLink req.ticketId req.prereqTicketId then
      .ok (some ((db.deleteLink req.ticketId req.prereqTicketId).evaluatePending req.ticketId))
    else .ok none

/-- What a move leaves in the row. -/
def Ticket.moved (status : TicketStatus) (position : Option Int) (next : Int) (now : Date)
    (t : Ticket) : Ticket :=
  (t.move? status position next now).getD t

/-- What an archive sets. -/
def Ticket.archive (now : Date) (t : Ticket) : Ticket :=
  { t with archived_at := some now, operational_dedupe_key := none }

@[simp] theorem Ticket.archive_id (now : Date) (t : Ticket) : (t.archive now).id = t.id := rfl

/-- What the end of its canonical sets on a duplicate. -/
def Ticket.resolve (at_ : Date) (t : Ticket) : Ticket :=
  { t with
    status := .done
    terminal_entered_at := some at_
    pending_user_action := false
    pending_on_tickets := false
    pending_ci_wait := false
    operational_dedupe_key := none
    supervisor_redispatches := 0 }

@[simp] theorem Ticket.resolve_id (at_ : Date) (t : Ticket) : (t.resolve at_).id = t.id := rfl

/-- What the end of the ticket before it sets on a next ticket. -/
def Ticket.queue (t : Ticket) : Ticket :=
  { t with status := .todo }

@[simp] theorem Ticket.queue_id (t : Ticket) : t.queue.id = t.id := rfl

/-- The body of a create request for a child. -/
structure ChildBody where
  title : String
  description : String := ""
  priority : String := "medium"
  isDone : Bool := false
  tags : List String := []
  channel_ids : List String := []
  position : Int := 0

def ChildBody.row (body : ChildBody) (parent : Ticket) (id : String) : Ticket where
  id
  parent_id := some parent.id
  depth := parent.depth + 1
  account_id := parent.account_id
  status := if body.isDone then .done else .todo
  title := body.title
  description := body.description
  priority := body.priority
  tags := body.tags
  channel_ids := body.channel_ids
  position := body.position

/-! ## The board -/

/-- What can happen to a ticket, or to a prerequisite of it, without its flag being evaluated. -/
inductive Bypass where
  /-- it was closed through its canonical -/
  | closed
  /-- a prerequisite that was done was reopened -/
  | reopened
  /-- a prerequisite that is a confirmed duplicate was finished -/
  | duplicate
  /-- a prerequisite that was not done was archived -/
  | archived
  /-- a prerequisite that is a child got another status -/
  | child
  /-- a prerequisite that is a child was deleted with its parent -/
  | deleted
deriving DecidableEq

/-- The tables, and the tickets with a `moved` activity that is not handled yet. `bypassed` holds,
    for each ticket, what happened since its flag was evaluated; no step depends on it. -/
structure BoardState where
  db : TicketDb
  decisions : List TicketDuplicateDecision
  moved : List String
  bypassed : List (String × Bypass)

namespace BoardState

def mark (s : BoardState) (b : Bypass) (ids : List String) : BoardState :=
  { s with bypassed := ids.map (·, b) ++ s.bypassed }

/-- The flags of these tickets are evaluated. -/
def reevaluate (s : BoardState) (ids : List String) : BoardState :=
  { s with
    db := s.db.reevaluate ids
    bypassed := s.bypassed.filter (·.1 ∉ ids) }

/-- What a move of a ticket between open and done means for its dependents, if nobody evaluates
    them. -/
def moveBypass (before after : Ticket) : Option Bypass :=
  if before.status = .done ↔ after.status = .done then none
  else if before.parent_id.isSome then some .child
  else if before.status = .done then some .reopened
  else if before.canonical_ticket_id.isSome then some .duplicate
  else none

/-- `TicketService.move`. Only the move of a root is a `moved` activity. -/
def move (s : BoardState) (id : String) (status : TicketStatus) (position : Option Int)
    (next : Int) (now : Date) : Except String BoardState :=
  match s.db.ticket? id with
  | none => .error "Ticket not found"
  | some t =>
    if t.archived_at.isSome then .error "Ticket is archived"
    else
      match t.move? status position next now with
      | none => .ok s
      | some e =>
        let s' : BoardState := { s with
          db := s.db.update id (Ticket.moved status position next now)
          moved := if t.parent_id.isSome then s.moved else s.moved ++ [id] }
        match moveBypass t e with
        | none => .ok s'
        | some b => .ok (s'.mark b (s.db.dependents id))

/-- The archive routes. -/
def archive (s : BoardState) (id : String) (now : Date) : Except String BoardState :=
  match s.db.ticket? id with
  | none => .error "Ticket not found"
  | some t =>
    if t.archived_at.isSome then .ok s
    else if t.parent_id.isSome ∨ t.depth > 0 then .error "Only root tickets can be archived"
    else
      let s' : BoardState := { s with db := s.db.update id (Ticket.archive now) }
      .ok (if t.status = .done then s' else s'.mark .archived (s.db.dependents id))

/-- The delete routes: the links to the ticket are deleted and its dependents evaluated before the
    row goes, and its children with it. -/
def delete (s : BoardState) (id : String) : Except String BoardState :=
  match s.db.ticket? id with
  | none => .error "Ticket not found"
  | some _ =>
    if s.db.tickets.any (·.canonical_ticket_id = some id) then .error "canonical_has_duplicates"
    else
      let s' := { s with db := s.db.deleteLinksTo id : BoardState }.reevaluate (s.db.dependents id)
      let ids := s.db.cascade s.db.tickets.length [id]
      .ok ({ s' with db := s'.db.remove ids : BoardState }.mark .deleted
        (ids.flatMap s'.db.dependents))

/-- `TicketService.create`; `id` is a new one. -/
def create (u : Unicode) (s : BoardState) (accountId : String) (body : TicketBody) (id : String)
    (now : Date) : Except String BoardState :=
  if id ∈ s.db.tickets.map (·.id) then .error "id"
  else
    match ReportCall.assess u s.db { accountId, body } with
    | .assessed a => .ok { s with
        db := { s.db with tickets := s.db.tickets ++ [body.row accountId a id now] }
        decisions := s.decisions ++ recordedDecisions id a }
    | .returned e => .error (e.getD "")
    | .start => .error ""

/-- `createChild`; `id` is a new one. -/
def createChild (s : BoardState) (parentId : String) (body : ChildBody) (id : String) :
    Except String BoardState :=
  if id ∈ s.db.tickets.map (·.id) then .error "id"
  else
    match s.db.ticket? parentId with
    | none => .error "Parent ticket not found"
    | some parent =>
      if (s.db.getRootArchivedAt parent).isSome then .error "ticket_archived"
      else if parent.depth + 1 > 2 then .error "Maximum depth of 2 exceeded"
      else if body.title = "" then .error "title is required"
      else .ok { s with db := { s.db with tickets := s.db.tickets ++ [body.row parent id] } }

/-- `addPrerequisites` with its evaluation. -/
def add (s : BoardState) (req : AddRequest) : Except String BoardState :=
  match addPrerequisites s.db req with
  | .error e => .error e
  | .ok (db, _) => .ok { s with
      db
      bypassed := s.bypassed.filter (·.1 ≠ req.ticketId) }

/-- `removePrerequisite` with its evaluation. -/
def removeLink (s : BoardState) (req : RemoveRequest) : Except String BoardState :=
  match removePrerequisite s.db req with
  | .error e => .error e
  | .ok none => .ok s
  | .ok (some db) => .ok { s with
      db
      bypassed := s.bypassed.filter (·.1 ≠ req.ticketId) }

/-- `confirm` of the duplicates. A finished ticket can become a duplicate before its `moved`
    activity is handled. -/
def confirm (s : BoardState) (reportId : String) (candidateId : Option String) :
    Except String BoardState :=
  match confirmCheck s.db s.decisions reportId candidateId with
  | .checked report canonical =>
    let s' : BoardState := { s with
      db := s.db.update report.id fun t => t.decided canonical
      decisions := confirmDecisions s.decisions report canonical candidateId }
    .ok (if report.status = .done ∧ canonical.isSome ∧ report.id ∈ s.moved then
      s'.mark .duplicate (s.db.dependents report.id) else s')
  | .returned e => .error (e.getD "")
  | .start => .error ""

/-- The claim of the pump. -/
def start (s : BoardState) (id : String) : Except String BoardState :=
  match s.db.ticket? id with
  | none => .error "Ticket not found"
  | some t =>
    if t.status = .todo then
      .ok { s with db := s.db.update id Ticket.start, moved := s.moved ++ [id] }
    else .error "not affected"

/-! ## The dispatcher -/

/-- One turn of `resolveDuplicates`. -/
def closeDuplicate (canonical : Ticket) (now : Date) (s : BoardState) (duplicate : Ticket) :
    BoardState :=
  if (s.db.ticket? duplicate.id).any (·.status = duplicate.status) then
    let s' : BoardState := { s with
      db := s.db.update duplicate.id (Ticket.resolve (canonical.terminal_entered_at.getD now))
      decisions := s.decisions ++ [
        { report_ticket_id := duplicate.id, candidate_ticket_id := canonical.id,
          outcome := .resolved_from_canonical, confidence := 100,
          matched_signals := ["canonical_done"] }]
      moved := s.moved ++ [duplicate.id] }
    (s'.mark .duplicate (s.db.dependents duplicate.id)).mark .closed [duplicate.id]
  else s

def resolveDuplicates (s : BoardState) (canonical : Ticket) (now : Date) : BoardState :=
  (s.db.openDuplicates canonical.id).foldl (closeDuplicate canonical now) s

/-- A backlog next ticket is queued. -/
def promoteNext (s : BoardState) (t : Ticket) : BoardState :=
  match t.next_ticket_id.bind s.db.ticket? with
  | none => s
  | some next =>
    if next.account_id = t.account_id ∧ next.status = .backlog ∧ next.archived_at.isNone then
      { s with db := s.db.update next.id Ticket.queue, moved := s.moved ++ [next.id] }
    else s

/-- `onDone` with `onPrerequisiteReached`. -/
def onDone (s : BoardState) (t : Ticket) (now : Date) : BoardState :=
  if t.canonical_ticket_id.isSome then s
  else
    let s := (s.resolveDuplicates t now).promoteNext t
    s.reevaluate (s.db.dependents t.id)

/-- `onActivity` for a `moved` activity. -/
def onMoved (s : BoardState) (id : String) (now : Date) : BoardState :=
  match s.db.ticket? id with
  | none => s
  | some t => if t.parent_id.isNone ∧ t.status = .done then s.onDone t now else s

end BoardState

inductive BoardAction where
  | create (accountId : String) (body : TicketBody) (id : String) (now : Date)
  | createChild (parentId : String) (body : ChildBody) (id : String)
  | move (id : String) (status : TicketStatus) (position : Option Int) (next : Int) (now : Date)
  | archive (id : String) (now : Date)
  | delete (id : String)
  | addPrerequisites (req : AddRequest)
  | removePrerequisite (req : RemoveRequest)
  | confirm (reportId : String) (candidateId : Option String)
  | start (id : String)
  | handle (i : Nat) (now : Date)

def BoardState.act (u : Unicode) (s : BoardState) : BoardAction → Except String BoardState
  | .create accountId body id now => s.create u accountId body id now
  | .createChild parentId body id => s.createChild parentId body id
  | .move id status position next now => s.move id status position next now
  | .archive id now => s.archive id now
  | .delete id => s.delete id
  | .addPrerequisites req => s.add req
  | .removePrerequisite req => s.removeLink req
  | .confirm reportId candidateId => s.confirm reportId candidateId
  | .start id => s.start id
  | .handle i now =>
    match s.moved[i]? with
    | none => .error "no such activity"
    | some id => .ok ({ s with moved := s.moved.eraseIdx i : BoardState }.onMoved id now)

/-- Any operations, and the handling of their activities at any later time, from a board whose
    flags are right. -/
def boardSystem (u : Unicode) : Transition BoardState BoardAction where
  init s := (s.db.tickets.map (·.id)).Nodup ∧
    (∀ l ∈ s.db.links, l.ticket_id ∈ s.db.tickets.map (·.id) ∧
      l.prerequisite_ticket_id ∈ s.db.tickets.map (·.id)) ∧
    (∀ t ∈ s.db.tickets, t.pending_on_tickets = anyPrereqOpen s.db (s.db.linksOf t.id)) ∧
    s.moved = [] ∧ s.bypassed = []
  step s a t := s.act u a = .ok t

end WorkflowBoard.Tickets
