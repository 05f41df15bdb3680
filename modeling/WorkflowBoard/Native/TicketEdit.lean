import WorkflowBoard.ForStd.RowSave
import WorkflowBoard.ForStd.Transition
import WorkflowBoard.Native.Tickets

/-!
# Editing and moving tickets (`modules/tickets/ticket.service.ts`, `update` / `move`)

The two calls that load a ticket, change the loaded entity and save it whole, next to the
status changes of the dispatcher, which are single conditional statements
(`modules/agents/ticket-dispatch.service.ts`: the claim of `pump`, the promotion of the next
ticket and the closing of duplicates).

A patch holds the values an update sets, as they are after the request was parsed; a request
that does not parse, and a project, next ticket or assignee that is refused, are errors from
outside. A patch has no status: `update` routes that to `move`. The dispatch at the end of
both calls changes no status and is not part of this model.
-/

namespace WorkflowBoard.Tickets

/-- The write of a save: the columns in which the entity differs from the row as it was read
    again. -/
def Ticket.save (entity reread row : Ticket) : Ticket where
  id := row.id
  canonical_ticket_id := saveColumn entity.canonical_ticket_id reread.canonical_ticket_id
    row.canonical_ticket_id
  source_kind := saveColumn entity.source_kind reread.source_kind row.source_kind
  source_chat_room_id :=
    saveColumn entity.source_chat_room_id reread.source_chat_room_id row.source_chat_room_id
  related_ticket_id :=
    saveColumn entity.related_ticket_id reread.related_ticket_id row.related_ticket_id
  account_id := saveColumn entity.account_id reread.account_id row.account_id
  parent_id := saveColumn entity.parent_id reread.parent_id row.parent_id
  depth := saveColumn entity.depth reread.depth row.depth
  status := saveColumn entity.status reread.status row.status
  next_ticket_id := saveColumn entity.next_ticket_id reread.next_ticket_id row.next_ticket_id
  pending_user_action :=
    saveColumn entity.pending_user_action reread.pending_user_action row.pending_user_action
  pending_reason := saveColumn entity.pending_reason reread.pending_reason row.pending_reason
  pending_set_by := saveColumn entity.pending_set_by reread.pending_set_by row.pending_set_by
  pending_on_tickets :=
    saveColumn entity.pending_on_tickets reread.pending_on_tickets row.pending_on_tickets
  pending_ci_wait := saveColumn entity.pending_ci_wait reread.pending_ci_wait row.pending_ci_wait
  archived_at := saveColumn entity.archived_at reread.archived_at row.archived_at
  title := saveColumn entity.title reread.title row.title
  description := saveColumn entity.description reread.description row.description
  prompt_text := saveColumn entity.prompt_text reread.prompt_text row.prompt_text
  priority := saveColumn entity.priority reread.priority row.priority
  tags := saveColumn entity.tags reread.tags row.tags
  project_id := saveColumn entity.project_id reread.project_id row.project_id
  base_branch := saveColumn entity.base_branch reread.base_branch row.base_branch
  channel_ids := saveColumn entity.channel_ids reread.channel_ids row.channel_ids
  on_done_action_ids :=
    saveColumn entity.on_done_action_ids reread.on_done_action_ids row.on_done_action_ids
  assignee := saveColumn entity.assignee reread.assignee row.assignee
  assignee_key := saveColumn entity.assignee_key reread.assignee_key row.assignee_key
  position := saveColumn entity.position reread.position row.position
  created_at := saveColumn entity.created_at reread.created_at row.created_at
  terminal_entered_at :=
    saveColumn entity.terminal_entered_at reread.terminal_entered_at row.terminal_entered_at
  operational_dedupe_key := saveColumn entity.operational_dedupe_key
    reread.operational_dedupe_key row.operational_dedupe_key
  last_dispatched_at :=
    saveColumn entity.last_dispatched_at reread.last_dispatched_at row.last_dispatched_at
  supervisor_redispatches := saveColumn entity.supervisor_redispatches
    reread.supervisor_redispatches row.supervisor_redispatches
  supervisor_live_since :=
    saveColumn entity.supervisor_live_since reread.supervisor_live_since row.supervisor_live_since
  supervisor_live_at :=
    saveColumn entity.supervisor_live_at reread.supervisor_live_at row.supervisor_live_at

/-- The second read of a save. Tickets are not deleted here, so there is a row. -/
def TicketDb.reread (db : TicketDb) (entity : Ticket) : Ticket :=
  (db.ticket? entity.id).getD entity

/-! ## `update` -/

/-- The values to set; `none` for a key that was not sent. -/
structure TicketPatch where
  title : Option String := none
  description : Option String := none
  prompt_text : Option String := none
  priority : Option String := none
  tags : Option (List String) := none
  project_id : Option (Option String) := none
  base_branch : Option String := none
  channel_ids : Option (List String) := none
  on_done_action_ids : Option (List String) := none
  next_ticket_id : Option (Option String) := none
  assignee : Option (Option RuntimeSpec) := none

/-- The key of an assignee; nobody has the empty one. -/
def assigneeKey (assignee : Option RuntimeSpec) : String :=
  (assignee.map (·.identityKey)).getD ""

/-- A new assignee starts without the supervisor's record of the old one. -/
def Ticket.setAssignee (t : Ticket) (assignee : Option RuntimeSpec) : Ticket :=
  if assigneeKey assignee ≠ t.assignee_key ∨ assignee ≠ t.assignee then
    { t with
      assignee
      assignee_key := assigneeKey assignee
      supervisor_redispatches := 0
      supervisor_live_since := none
      supervisor_live_at := none }
  else t

/-- The loaded entity with the patch applied. -/
def Ticket.applyPatch (t : Ticket) (patch : TicketPatch) : Ticket :=
  let t := { t with
    title := patch.title.getD t.title
    description := patch.description.getD t.description
    prompt_text := patch.prompt_text.getD t.prompt_text
    priority := patch.priority.getD t.priority
    tags := patch.tags.getD t.tags
    project_id := patch.project_id.getD t.project_id
    base_branch := patch.base_branch.getD t.base_branch
    channel_ids := patch.channel_ids.getD t.channel_ids
    on_done_action_ids := patch.on_done_action_ids.getD t.on_done_action_ids
    next_ticket_id := patch.next_ticket_id.getD t.next_ticket_id }
  match patch.assignee with
  | some assignee => t.setAssignee assignee
  | none => t

/-- `loaded` is the entity as it was loaded. -/
inductive EditPhase where
  | start
  | loaded (ticket : Ticket)
  | write (entity reread : Ticket)
  | returned (error : Option String)

/-! ## `move` -/

/-- What a move sets on a root ticket. `next` is the end of the lane it goes to. -/
def Ticket.moveTo (t : Ticket) (status : TicketStatus) (position : Option Int) (next : Int)
    (now : Date) : Ticket :=
  let leaves := t.status = .in_progress ∨ status ≠ .in_progress
  { t with
    status
    position := position.getD next
    terminal_entered_at := if status = .done then some now else none
    operational_dedupe_key := if status = .done then none else t.operational_dedupe_key
    supervisor_redispatches := if leaves then 0 else t.supervisor_redispatches
    supervisor_live_since := if leaves then none else t.supervisor_live_since
    supervisor_live_at := if leaves then none else t.supervisor_live_at }

/-- The status a child takes: it is done or not. -/
def childStatus (status : TicketStatus) : TicketStatus :=
  if status = .done then .done else .todo

/-- What the claim of the pump sets. -/
def Ticket.start (t : Ticket) : Ticket :=
  { t with status := .in_progress }

@[simp] theorem Ticket.start_id (t : Ticket) : t.start.id = t.id := rfl

/-- The entity a move saves; `none` if the ticket is where it should be. -/
def Ticket.move? (t : Ticket) (status : TicketStatus) (position : Option Int) (next : Int)
    (now : Date) : Option Ticket :=
  if t.parent_id.isSome then
    if t.status = childStatus status then none else some { t with status := childStatus status }
  else if t.status = status then none
  else some (t.moveTo status position next now)

/-! ## Any number of calls -/

inductive EditCall where
  | update (id : String) (patch : TicketPatch) (phase : EditPhase)
  | move (id : String) (status : TicketStatus) (position : Option Int) (phase : EditPhase)

/-- The table and the calls. `wrote` is, for each ticket, the status that the last step which set
    a status gave it; no step depends on it. -/
structure EditState where
  db : TicketDb
  clock : Date
  calls : List EditCall
  wrote : List (String × TicketStatus)

/-- What a statement meets outside the table: an error of the request, the end of the lane. -/
structure EditOutside where
  error : Option String := none
  nextPosition : Int := 0

/-- The write of a save. -/
def EditState.saveTicket (s : EditState) (entity reread : Ticket) : EditState :=
  { s with db := s.db.update entity.id (entity.save reread) }

/-- A status was set. -/
def EditState.record (s : EditState) (id : String) (set : TicketStatus → TicketStatus) :
    EditState :=
  { s with wrote := s.wrote.map fun p => if p.1 = id then (p.1, set p.2) else p }

/-- Both calls load the ticket in the same way. -/
def loadTicket (db : TicketDb) (id : String) : EditPhase :=
  match db.ticket? id with
  | none => .returned (some "Ticket not found")
  | some t => if t.archived_at.isSome then .returned (some "Ticket is archived") else .loaded t

/-- The next statement of an update. An update that changes nothing saves nothing. -/
def updateStep (s : EditState) (id : String) (patch : TicketPatch) (o : EditOutside) :
    EditPhase → Option (EditState × EditPhase)
  | .start => some (s, loadTicket s.db id)
  | .loaded t =>
    if o.error.isSome then some (s, .returned o.error)
    else
      let e := t.applyPatch patch
      if e = t then some (s, .returned none) else some (s, .write e (s.db.reread e))
  | .write e r => some (s.saveTicket e r, .returned none)
  | .returned _ => none

/-- The next statement of a move. The reposition of its lane writes positions only. -/
def moveStep (s : EditState) (id : String) (status : TicketStatus) (position : Option Int)
    (o : EditOutside) : EditPhase → Option (EditState × EditPhase)
  | .start => some (s, loadTicket s.db id)
  | .loaded t =>
    match t.move? status position o.nextPosition s.clock with
    | none => some (s, .returned none)
    | some e => some (s, .write e (s.db.reread e))
  | .write e r =>
    some ((s.saveTicket e r).record e.id (saveColumn e.status r.status), .returned none)
  | .returned _ => none

/-- `update({ id, status: prev }, { status: next, … })`: the status changes only from `prev`. -/
def EditState.changeStatus (s : EditState) (id : String) (prev next : TicketStatus)
    (set : Ticket → Ticket) : EditState :=
  let db := s.db.update id fun t => if t.status = prev then { set t with status := next } else t
  { s with db }.record id fun status => if status = prev then next else status

/-- The claim of the pump. -/
def EditState.claim (s : EditState) (id : String) : EditState :=
  s.changeStatus id .todo .in_progress fun t => t

/-- A finished ticket queues its next one. -/
def EditState.promoteNext (s : EditState) (id : String) : EditState :=
  s.changeStatus id .backlog .todo fun t => t

/-- A finished canonical closes a duplicate that was `prev` when it was read. -/
def EditState.resolveDuplicate (s : EditState) (id : String) (prev : TicketStatus) (at_ : Date) :
    EditState :=
  s.changeStatus id prev .done fun t => { t with
    terminal_entered_at := some at_
    pending_user_action := false
    pending_on_tickets := false
    pending_ci_wait := false
    operational_dedupe_key := none
    supervisor_redispatches := 0 }

inductive EditAction where
  | tick (now : Date)
  | startUpdate (id : String) (patch : TicketPatch)
  | startMove (id : String) (status : TicketStatus) (position : Option Int)
  | advance (i : Nat) (outside : EditOutside)
  | claim (id : String)
  | promoteNext (id : String)
  | resolveDuplicate (id : String) (prev : TicketStatus)

/-- The next statement of a call. -/
def editStep (s : EditState) (o : EditOutside) : EditCall → Option (EditState × EditCall)
  | .update id patch phase =>
    (updateStep s id patch o phase).map fun r => (r.1, .update id patch r.2)
  | .move id status position phase =>
    (moveStep s id status position o phase).map fun r => (r.1, .move id status position r.2)

def EditState.act (s : EditState) : EditAction → Except String EditState
  | .tick now => .ok { s with clock := now }
  | .startUpdate id patch => .ok { s with calls := s.calls ++ [.update id patch .start] }
  | .startMove id status position =>
    .ok { s with calls := s.calls ++ [.move id status position .start] }
  | .advance i o =>
    match s.calls[i]?.bind (editStep s o) with
    | some (t, c) => .ok { t with calls := t.calls.set i c }
    | none => .error "no statement to run"
  | .claim id => .ok (s.claim id)
  | .promoteNext id => .ok (s.promoteNext id)
  | .resolveDuplicate id prev => .ok (s.resolveDuplicate id prev s.clock)

/-- Any calls, in any interleaving with the dispatcher, on any tickets. -/
def editSystem : Transition EditState EditAction where
  init s := (s.db.tickets.map (·.id)).Nodup ∧ s.calls = [] ∧
    s.wrote = s.db.tickets.map fun t => (t.id, t.status)
  step s a t := s.act a = .ok t

end WorkflowBoard.Tickets
