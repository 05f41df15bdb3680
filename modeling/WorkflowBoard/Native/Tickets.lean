import Mathlib.Data.List.Basic
import WorkflowBoard.Native.JsDate

/-!
# Tickets and their prerequisite links (`entities/Ticket.ts`, `entities/TicketPrerequisite.ts`)

The two tables the ticket services share, with the columns that the modelled functions read
or write. A ticket row is found by its id; a link row says that one ticket waits for another.
-/

namespace WorkflowBoard.Tickets

/-- `TICKET_STATUSES` of `common/ticket-status.ts`. -/
inductive TicketStatus where
  | backlog
  | todo
  | in_progress
  | review
  | done
deriving DecidableEq

def TicketStatus.text : TicketStatus → String
  | .backlog => "backlog"
  | .todo => "todo"
  | .in_progress => "in_progress"
  | .review => "review"
  | .done => "done"

/-- A runtime that works on tickets: its host, and the key that identifies it there
    (`runtimeIdentityKey`). -/
structure RuntimeSpec where
  manager_agent_id : String
  identityKey : String
  label : String := ""
deriving DecidableEq

structure Ticket where
  id : String
  canonical_ticket_id : Option String := none
  source_kind : String := ""
  source_chat_room_id : String := ""
  related_ticket_id : Option String := none
  account_id : String := ""
  parent_id : Option String := none
  depth : Nat := 0
  status : TicketStatus := .todo
  next_ticket_id : Option String := none
  pending_user_action : Bool := false
  pending_reason : String := ""
  pending_set_by : String := ""
  pending_on_tickets : Bool := false
  pending_ci_wait : Bool := false
  archived_at : Option Date := none
  title : String := ""
  description : String := ""
  prompt_text : String := ""
  priority : String := "medium"
  tags : List String := []
  project_id : Option String := none
  base_branch : String := ""
  channel_ids : List String := []
  on_done_action_ids : List String := []
  assignee : Option RuntimeSpec := none
  assignee_key : String := ""
  position : Int := 0
  created_at : Date := 0
  terminal_entered_at : Option Date := none
  operational_dedupe_key : Option String := none
  last_dispatched_at : Option Date := none
  supervisor_redispatches : Nat := 0
  supervisor_live_since : Option Date := none
  supervisor_live_at : Option Date := none
deriving DecidableEq

/-- `isTicketPending`: any pending flag parks a ticket. -/
def Ticket.isPending (t : Ticket) : Bool :=
  t.pending_user_action || t.pending_on_tickets || t.pending_ci_wait

/-- `ticket_id` is blocked by `prerequisite_ticket_id`. -/
structure TicketPrerequisite where
  ticket_id : String
  prerequisite_ticket_id : String
  created_by : String := ""
  reason : String := ""
deriving DecidableEq

structure TicketDb where
  tickets : List Ticket
  links : List TicketPrerequisite
deriving DecidableEq

namespace TicketDb

/-- `findOne({ where: { id } })`. -/
def ticket? (db : TicketDb) (id : String) : Option Ticket :=
  db.tickets.find? (·.id = id)

/-- `update(id, …)`: every row with the id, none if there is no such row. -/
def update (db : TicketDb) (id : String) (set : Ticket → Ticket) : TicketDb :=
  { db with tickets := db.tickets.map fun t => if t.id = id then set t else t }

/-- `find({ where: { ticket_id } })`. -/
def linksOf (db : TicketDb) (ticketId : String) : List TicketPrerequisite :=
  db.links.filter (·.ticket_id = ticketId)

/-- `findOne({ where: { ticket_id, prerequisite_ticket_id } })`, as a test. -/
def hasLink (db : TicketDb) (ticketId prereqId : String) : Bool :=
  db.links.any fun l => l.ticket_id = ticketId && l.prerequisite_ticket_id = prereqId

/-- `delete({ ticket_id, prerequisite_ticket_id })`. -/
def deleteLink (db : TicketDb) (ticketId prereqId : String) : TicketDb :=
  { db with links := db.links.filter fun l =>
      !(l.ticket_id = ticketId && l.prerequisite_ticket_id = prereqId) }

/-- The links as edges from the waiting ticket to its prerequisite. -/
def edges (db : TicketDb) : List (String × String) :=
  db.links.map fun l => (l.ticket_id, l.prerequisite_ticket_id)

end TicketDb

/-- One turn of the loop of `anyPrereqOpen`: the prerequisite exists, is not archived and is
    not done. -/
def prereqOpen (db : TicketDb) (link : TicketPrerequisite) : Bool :=
  match db.ticket? link.prerequisite_ticket_id with
  | none => false
  | some prereq => prereq.archived_at.isNone && prereq.status ≠ .done

/-- Is any prerequisite of the rows still open? -/
def anyPrereqOpen (db : TicketDb) (rows : List TicketPrerequisite) : Bool :=
  rows.any (prereqOpen db)

/-! ## What the table operations do -/

section Lemmas

variable {db : TicketDb} {id j : String} {set : Ticket → Ticket}

@[simp] theorem TicketDb.linksOf_update : (db.update id set).linksOf j = db.linksOf j := rfl

theorem TicketDb.mem_edges {a b : String} :
    (a, b) ∈ db.edges ↔ ∃ l ∈ db.links, l.ticket_id = a ∧ l.prerequisite_ticket_id = b := by
  simp [TicketDb.edges]

theorem TicketDb.edges_deleteLink {a b t p : String} (h : (a, b) ∈ (db.deleteLink t p).edges) :
    (a, b) ∈ db.edges := by
  obtain ⟨l, hl, hab⟩ := TicketDb.mem_edges.mp h
  exact TicketDb.mem_edges.mpr ⟨l, List.mem_of_mem_filter hl, hab⟩

/-- A rewrite that keeps the ids keeps the list of ids. -/
theorem TicketDb.ids_update (hid : ∀ t, (set t).id = t.id) :
    (db.update id set).tickets.map (·.id) = db.tickets.map (·.id) := by
  unfold TicketDb.update
  rw [List.map_map]
  apply List.map_congr_left
  intro t ht
  simp only [Function.comp_apply]
  split
  · exact hid t
  · rfl

theorem TicketDb.mem_ids_update (hid : ∀ t, (set t).id = t.id) {j : String}
    (h : j ∈ db.tickets.map (·.id)) : j ∈ (db.update id set).tickets.map (·.id) := by
  rw [TicketDb.ids_update hid]
  exact h

theorem TicketDb.mem_update {x : Ticket} (h : x ∈ (db.update id set).tickets) :
    ∃ y ∈ db.tickets, (y.id = id ∧ x = set y) ∨ (y.id ≠ id ∧ x = y) := by
  obtain ⟨y, hy, rfl⟩ := List.mem_map.mp h
  by_cases hid : y.id = id
  · exact ⟨y, hy, .inl ⟨hid, if_pos hid⟩⟩
  · exact ⟨y, hy, .inr ⟨hid, if_neg hid⟩⟩

theorem TicketDb.ticket?_update (hid : ∀ t, (set t).id = t.id) (j : String) :
    (db.update id set).ticket? j = (db.ticket? j).map fun t => if t.id = id then set t else t := by
  unfold TicketDb.ticket? TicketDb.update
  rw [List.find?_map]
  congr 2
  funext t
  simp only [Function.comp_apply]
  split
  · rw [hid t]
  · rfl

theorem TicketDb.mem_of_ticket? {x : Ticket} (h : db.ticket? id = some x) :
    x ∈ db.tickets ∧ x.id = id :=
  ⟨List.mem_of_find?_eq_some h, by simpa using List.find?_some h⟩

/-- A row read from an updated table is the rewritten row or an untouched one. -/
theorem TicketDb.ticket?_of_update (hid : ∀ t, (set t).id = t.id) {x : Ticket}
    (h : (db.update id set).ticket? j = some x) :
    ∃ r, db.ticket? j = some r ∧ ((j = id ∧ x = set r) ∨ (j ≠ id ∧ x = r)) := by
  rw [TicketDb.ticket?_update hid] at h
  obtain ⟨r, hr, rfl⟩ := Option.map_eq_some_iff.mp h
  obtain rfl := (TicketDb.mem_of_ticket? hr).2
  by_cases hj : r.id = id
  · exact ⟨r, hr, .inl ⟨hj, if_pos hj⟩⟩
  · exact ⟨r, hr, .inr ⟨hj, if_neg hj⟩⟩

end Lemmas

end WorkflowBoard.Tickets
