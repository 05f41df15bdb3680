import Mathlib.Data.List.Sort
import WorkflowBoard.Native.JsString
import WorkflowBoard.Native.TicketEdit

/-!
# Duplicate reports (`modules/tickets/ticket-duplicate.service.ts`)

A new report is compared with the open tickets of its account. One certain match links it to
that ticket, its canonical; anything less certain parks it until somebody confirms one of the
suggested tickets or keeps it independent. A wrong link can be corrected. When a canonical is
finished, `resolveDuplicates` of the dispatcher closes the tickets linked to it.

The transactions run at read committed: what one has read may have changed before it writes.
The comparison is made before the transaction that inserts the report.

The intake is as `parseProvenance` returns it; the comments a link leaves are not modelled.
-/

namespace WorkflowBoard.Tickets

/-! ## Comparing a report with a ticket -/

/-- The Unicode tables of the runtime that the comparison looks into. -/
structure Unicode where
  nfkc : String → String
  lower : String → String
  isLetterOrNumber : Char → Bool

/-- The prefixes a title loses, as `bug:`, `fix -` or `[bug]`. -/
def titleTags : List (List Char) :=
  ["bug", "버그", "fix", "regression"].map String.toList

/-- What follows `word` at the start of `s`. -/
def dropWord (word s : List Char) : Option (List Char) :=
  if word.isPrefixOf s then some (s.drop word.length) else none

/-- The rest after `[tag]` or `tag :`, if the title starts so. -/
def afterTag (s : List Char) (tag : List Char) : Option (List Char) :=
  match dropWord (['['] ++ tag ++ [']']) s with
  | some rest => some rest
  | none =>
    match (dropWord tag s).map (List.dropWhile isJsSpace) with
    | some (c :: rest) => if c = ':' ∨ c = '-' then some rest else none
    | _ => none

def stripTitleTag (s : List Char) : List Char :=
  match titleTags.findSome? (afterTag (s.dropWhile isJsSpace)) with
  | some rest => rest.dropWhile isJsSpace
  | none => s

/-- The words of a title in one spelling, with single blanks between them. -/
def normalizeTitle (u : Unicode) (value : String) : String :=
  let chars := stripTitleTag (u.lower (u.nfkc value)).toList
  let words := (chars.splitOnP fun c => !u.isLetterOrNumber c).filter (· ≠ [])
  " ".intercalate (words.map String.ofList)

structure DuplicateIntake where
  title : String
  tags : List String := []
  source_kind : String := ""
  source_chat_room_id : String := ""
  related_ticket_id : Option String := none

structure DuplicateMatch where
  ticket_id : String
  title : String
  confidence : Nat
  matched_signals : List String

structure DuplicateAssessment where
  canonical_ticket_id : Option String
  ambiguous : Bool
  candidates : List DuplicateMatch

/-- Tags that every report of a channel carries are no signal. -/
def isProvenanceTag (tag : String) : Bool :=
  tag = "outreach" || "source:".toList.isPrefixOf tag.toList

def intakeTags (u : Unicode) (tags : List String) : List String :=
  (((tags.map trimText).map u.lower).filter (· ≠ "")).filter fun tag => !isProvenanceTag tag

/-- One turn of the loop of `assess`: how surely the candidate is the same report. -/
def matchCandidate (u : Unicode) (input : DuplicateIntake) (candidate : Ticket) :
    Option DuplicateMatch :=
  if candidate.source_kind ≠ input.source_kind then none else
  let room := input.source_chat_room_id
  let sameRoom := room ≠ "" && candidate.source_chat_room_id = room
  let sameRelated := input.related_ticket_id.isSome &&
    candidate.related_ticket_id = input.related_ticket_id
  let conflictingRoom := room ≠ "" && candidate.source_chat_room_id ≠ "" &&
    candidate.source_chat_room_id ≠ room
  let conflictingRelated := input.related_ticket_id.isSome && candidate.related_ticket_id.isSome &&
    candidate.related_ticket_id ≠ input.related_ticket_id
  let normalized := normalizeTitle u input.title
  let sameTitle := normalized ≠ "" && normalizeTitle u candidate.title = normalized
  let tags := intakeTags u input.tags
  let overlap := (candidate.tags.filter fun tag => tags.contains (u.lower tag)).length
  let signals :=
    (if sameRoom then
      [if input.source_kind = "chat" then "same_source_room" else "same_channel"] else []) ++
    (if sameRelated then ["same_related_ticket"] else []) ++
    (if sameTitle then ["normalized_title"] else []) ++
    (if overlap ≠ 0 then ["overlapping_scope"] else []) ++
    (if conflictingRoom then ["conflicting_source_room"] else []) ++
    (if conflictingRelated then ["conflicting_related_ticket"] else [])
  let anchor := sameRoom || sameRelated
  let corroborated := sameTitle || overlap > 0
  let hasStrongConflict := conflictingRoom || conflictingRelated
  let confidence :=
    if anchor && corroborated && !hasStrongConflict then 100
    else if anchor || (sameTitle && overlap > 0) then 60
    else 0
  if confidence = 0 then none
  else some
    { ticket_id := candidate.id, title := candidate.title, confidence, matched_signals := signals }

/-- The tickets a report of the account is compared with. -/
def duplicateCandidates (db : TicketDb) (accountId : String) : List Ticket :=
  db.tickets.filter fun t => t.account_id = accountId && t.parent_id.isNone &&
    t.archived_at.isNone && t.canonical_ticket_id.isNone

/-- The one ticket that surely is the same report. -/
def onlyHigh : List DuplicateMatch → Option String
  | [m] => some m.ticket_id
  | _ => none

def assess (u : Unicode) (db : TicketDb) (accountId : String) (input : DuplicateIntake) :
    DuplicateAssessment :=
  if accountId = "" ∨ input.source_kind = "" then ⟨none, false, []⟩ else
  let found := (duplicateCandidates db accountId).filterMap (matchCandidate u input)
  let high := found.filter (·.confidence ≥ 100)
  { canonical_ticket_id := onlyHigh high
    ambiguous := high.length > 1 || (high.length = 0 && found.length > 0)
    candidates := found.insertionSort fun a b => b.confidence ≤ a.confidence }

/-! ## Decisions -/

inductive DecisionOutcome where
  | auto_linked
  | ambiguous_pending
  | confirmed_link
  | rejected
  | corrected_independent
  | resolved_from_canonical
deriving DecidableEq

structure TicketDuplicateDecision where
  report_ticket_id : String
  candidate_ticket_id : String
  outcome : DecisionOutcome
  confidence : Nat := 0
  matched_signals : List String := []

/-- The rows `recordTx` saves with a new report. -/
def recordedDecisions (reportId : String) (assessment : DuplicateAssessment) :
    List TicketDuplicateDecision :=
  assessment.candidates.map fun c =>
    { report_ticket_id := reportId
      candidate_ticket_id := c.ticket_id
      outcome := if assessment.canonical_ticket_id = some c.ticket_id then .auto_linked
        else .ambiguous_pending
      confidence := c.confidence
      matched_signals := c.matched_signals }

/-! ## `create` -/

/-- The body of a create request after parsing, with the position its row gets. -/
structure TicketBody where
  intake : DuplicateIntake
  status : TicketStatus := .todo
  description : String := ""
  prompt_text : String := ""
  priority : String := "medium"
  project_id : Option String := none
  base_branch : String := ""
  channel_ids : List String := []
  on_done_action_ids : List String := []
  next_ticket_id : Option String := none
  assignee : Option RuntimeSpec := none
  position : Int := 0
  operational_dedupe_key : Option String := none
  pending_user_action : Bool := false
  pending_reason : String := ""
  actorName : String := ""

/-- `DUPLICATE_PENDING_SET_BY`. -/
def duplicatePendingSetBy : String := "duplicate_decision_guard"

def duplicatePendingReason (kind : String) : String :=
  s!"Confirm whether this {kind} report duplicates one of the suggested tickets."

/-- The row of a new report. -/
def TicketBody.row (body : TicketBody) (accountId : String) (assessment : DuplicateAssessment)
    (id : String) (now : Date) : Ticket where
  id
  canonical_ticket_id := assessment.canonical_ticket_id
  source_kind := body.intake.source_kind
  source_chat_room_id := body.intake.source_chat_room_id
  related_ticket_id := body.intake.related_ticket_id
  account_id := accountId
  status := body.status
  next_ticket_id := body.next_ticket_id
  pending_user_action := assessment.ambiguous || body.pending_user_action
  pending_reason :=
    if assessment.ambiguous then
      duplicatePendingReason
        (if body.intake.source_kind = "" then "chat" else body.intake.source_kind)
    else if body.pending_user_action then body.pending_reason else ""
  pending_set_by :=
    if assessment.ambiguous then duplicatePendingSetBy
    else if body.pending_user_action then body.actorName else ""
  title := sliceText 500 body.intake.title
  description := body.description
  prompt_text := body.prompt_text
  priority := body.priority
  tags := body.intake.tags
  project_id := body.project_id
  base_branch := body.base_branch
  channel_ids := body.channel_ids
  on_done_action_ids := body.on_done_action_ids
  assignee := body.assignee
  assignee_key := assigneeKey body.assignee
  position := body.position
  terminal_entered_at := if body.status = .done then some now else none
  operational_dedupe_key := body.operational_dedupe_key

inductive ReportPhase where
  | start
  | assessed (assessment : DuplicateAssessment)
  | returned (error : Option String)

structure ReportCall where
  accountId : String
  body : TicketBody
  phase : ReportPhase := .start

/-- The comparison of a new report. -/
def ReportCall.assess (u : Unicode) (db : TicketDb) (c : ReportCall) : ReportPhase :=
  let a := Tickets.assess u db c.accountId c.body.intake
  if c.body.intake.related_ticket_id.isSome ∧ c.body.status = .done then
    .returned (some
      ("A follow-up ticket (related_ticket_id) cannot be created as done — " ++
        "it would never be worked."))
  else .assessed a

/-! ## `confirm` -/

/-- `LEGACY_DUPLICATE_PENDING_REASON`: the text of `duplicatePendingReason` for some kind without
    a line break. -/
def isLegacyPendingReason (reason : String) : Bool :=
  let before := "Confirm whether this ".toList
  let after := " report duplicates one of the suggested tickets.".toList
  let chars := reason.toList
  let kind := (chars.drop before.length).take (chars.length - before.length - after.length)
  before.isPrefixOf chars && after.isSuffixOf chars && kind ≠ [] &&
    kind.all fun c => c.val ∉ [0xA, 0xD, 0x2028, 0x2029]

def isDuplicateDecisionPending (t : Ticket) (hasAmbiguousCandidate : Bool) : Bool :=
  t.pending_user_action && (t.pending_set_by = duplicatePendingSetBy ||
    (hasAmbiguousCandidate && isLegacyPendingReason t.pending_reason))

inductive ConfirmPhase where
  | start
  | checked (report : Ticket) (canonical : Option Ticket)
  | returned (error : Option String)

structure ConfirmCall where
  reportId : String
  candidateId : Option String
  phase : ConfirmPhase := .start

/-- The canonical a decision names; `none` keeps the report independent. -/
def confirmCanonical (db : TicketDb) (decisions : List TicketDuplicateDecision) (report : Ticket)
    (candidateId : String) : Except String Ticket :=
  if !decisions.any fun d => d.report_ticket_id = report.id &&
      d.candidate_ticket_id = candidateId && d.outcome = .ambiguous_pending then
    .error "Canonical candidate was not offered for this duplicate decision"
  else
    match db.tickets.find? fun t => t.id = candidateId && t.account_id = report.account_id &&
        t.canonical_ticket_id.isNone with
    | none => .error "Invalid canonical candidate"
    | some canonical =>
      if canonical.id = report.id then .error "Invalid canonical candidate" else .ok canonical

/-- The reads of the transaction. -/
def confirmCheck (db : TicketDb) (decisions : List TicketDuplicateDecision) (reportId : String)
    (candidateId : Option String) : ConfirmPhase :=
  match db.ticket? reportId with
  | none => .returned (some "Ticket not found")
  | some report =>
    let ambiguous := decisions.any fun d =>
      d.report_ticket_id = report.id && d.outcome = .ambiguous_pending
    if !isDuplicateDecisionPending report ambiguous then
      .returned (some "Ticket has no duplicate decision pending")
    else
      match candidateId.filter (· ≠ "") with
      | none => .checked report none
      | some candidateId =>
        match confirmCanonical db decisions report candidateId with
        | .error e => .returned (some e)
        | .ok canonical => .checked report (some canonical)

/-- The report as the decision leaves it. -/
def Ticket.decided (report : Ticket) (canonical : Option Ticket) : Ticket :=
  { report with
    canonical_ticket_id := canonical.map (·.id)
    pending_user_action := false
    pending_reason := ""
    pending_set_by := "" }

/-- The pending candidates are closed, and the decision gets a row of its own. -/
def confirmDecisions (decisions : List TicketDuplicateDecision) (report : Ticket)
    (canonical : Option Ticket) (candidateId : Option String) : List TicketDuplicateDecision :=
  (decisions.map fun d =>
    if d.report_ticket_id = report.id ∧ d.outcome = .ambiguous_pending then
      { d with outcome := .rejected } else d) ++
  [{ report_ticket_id := report.id
     candidate_ticket_id :=
       ((canonical.map (·.id)).or (candidateId.filter (· ≠ ""))).getD report.id
     outcome := if canonical.isSome then .confirmed_link else .rejected
     confidence := if canonical.isSome then 100 else 0 }]

/-! ## `correctConfirmedLink` -/

/-- The link is removed if it is still the one that was read. -/
def Ticket.unlink (previous : String) (t : Ticket) : Ticket :=
  if t.canonical_ticket_id = some previous then { t with canonical_ticket_id := none } else t

/-! ## `resolveDuplicates` -/

/-- The open tickets linked to a canonical. -/
def TicketDb.openDuplicates (db : TicketDb) (canonicalId : String) : List Ticket :=
  db.tickets.filter fun t => t.canonical_ticket_id = some canonicalId && t.status ≠ .done

/-- Where the dispatcher is with a ticket that was moved. -/
inductive DonePhase where
  | start
  | loaded (ticket : Ticket)
  | closing (canonical : Ticket) (rest : List Ticket)
  | returned
deriving DecidableEq

/-- The work on one `moved` activity. `owed` are the open tickets that were linked to the ticket
    when it was found done and still were when its duplicates were read, `closed` those that were
    done after their turn. Both are a record: no step depends on them. -/
structure Completion where
  ticketId : String
  phase : DonePhase := .start
  owed : List String := []
  closed : List String := []
deriving DecidableEq

/-! ## Any number of calls -/

/-- The tickets with their updates and moves, the decisions, and the calls about duplicates. -/
structure DuplicateState where
  edits : EditState
  decisions : List TicketDuplicateDecision
  reports : List ReportCall
  confirms : List ConfirmCall
  completions : List Completion

namespace DuplicateState

def db (s : DuplicateState) : TicketDb := s.edits.db

/-- Insert the row of a new report. -/
def insertTicket (s : DuplicateState) (t : Ticket) : DuplicateState :=
  { s with edits := { s.edits with
      db := { s.edits.db with tickets := s.edits.db.tickets ++ [t] }
      wrote := s.edits.wrote ++ [(t.id, t.status)] } }

/-- The next statement of a create; `id` is a new one. -/
def reportStep (u : Unicode) (s : DuplicateState) (id : String) (c : ReportCall) :
    Option (DuplicateState × ReportPhase) :=
  match c.phase with
  | .start => some (s, c.assess u s.db)
  | .assessed a =>
    if id ∈ s.db.tickets.map (·.id) then none
    else
      let s := s.insertTicket (c.body.row c.accountId a id s.edits.clock)
      some ({ s with decisions := s.decisions ++ recordedDecisions id a }, .returned none)
  | .returned _ => none

/-- The next statement of a confirmation: its reads, and its writes. -/
def confirmStep (s : DuplicateState) (c : ConfirmCall) : Option (DuplicateState × ConfirmPhase) :=
  match c.phase with
  | .start => some (s, confirmCheck s.db s.decisions c.reportId c.candidateId)
  | .checked report canonical =>
    let e := report.decided canonical
    some ({ s with
      edits := s.edits.saveTicket e (s.db.reread e)
      decisions := confirmDecisions s.decisions report canonical c.candidateId }, .returned none)
  | .returned _ => none

/-- `correctConfirmedLink`. The update finds the link that was read, or the call fails. -/
def correct (s : DuplicateState) (reportId : String) : Except String DuplicateState :=
  match s.db.ticket? reportId with
  | none => .error "Ticket not found"
  | some report =>
    match report.canonical_ticket_id with
    | none => .error "Ticket has no confirmed canonical link to correct"
    | some previous =>
      match s.db.ticket? previous with
      | none => .error "Confirmed canonical link is invalid or outside the ticket account"
      | some canonical =>
        if canonical.account_id ≠ report.account_id ∨ canonical.id = report.id then
          .error "Confirmed canonical link is invalid or outside the ticket account"
        else
          .ok { s with
            edits := { s.edits with db := s.db.update reportId (Ticket.unlink previous) }
            decisions := s.decisions ++ [
              { report_ticket_id := reportId, candidate_ticket_id := previous,
                outcome := .corrected_independent }] }

/-- The turn of one duplicate: it is closed if its status is still the one that was read. -/
def closeDuplicate (s : DuplicateState) (canonical duplicate : Ticket) : DuplicateState :=
  let edits := s.edits.resolveDuplicate duplicate.id duplicate.status
    (canonical.terminal_entered_at.getD s.edits.clock)
  if (s.db.ticket? duplicate.id).any (·.status = duplicate.status) then
    { s with
      edits
      decisions := s.decisions ++ [
        { report_ticket_id := duplicate.id, candidate_ticket_id := canonical.id,
          outcome := .resolved_from_canonical, confidence := 100,
          matched_signals := ["canonical_done"] }]
      completions := s.completions ++ [{ ticketId := duplicate.id }] }
  else s

/-- The next statement of the work on a `moved` activity. A duplicate that was closed is an
    activity of its own. -/
def completeStep (s : DuplicateState) (c : Completion) : Option (DuplicateState × Completion) :=
  match c.phase with
  | .start =>
    match s.db.ticket? c.ticketId with
    | none => some (s, { c with phase := .returned })
    | some t =>
      let owed := if t.status = .done then (s.db.openDuplicates t.id).map (·.id) else []
      some (s, { c with phase := .loaded t, owed })
  | .loaded t =>
    if t.parent_id.isSome ∨ t.status ≠ .done ∨ t.canonical_ticket_id.isSome then
      some (s, { c with phase := .returned })
    else
      let duplicates := s.db.openDuplicates t.id
      let owed := c.owed.filter (· ∈ duplicates.map (·.id))
      some (s, { c with phase := .closing t duplicates, owed })
  | .closing _ [] => some (s, { c with phase := .returned })
  | .closing t (d :: rest) =>
    let s := s.closeDuplicate t d
    let closed := if (s.db.ticket? d.id).any (·.status = .done) then c.closed ++ [d.id]
      else c.closed
    some (s, { c with phase := .closing t rest, closed })
  | .returned => none

/-- The ticket a step of the edits has moved: its activity is sent to the dispatcher. -/
def movedTicket (s : DuplicateState) : EditAction → Option String
  | .advance i _ =>
    match s.edits.calls[i]? with
    | some (.move _ _ _ (.write e _)) => some e.id
    | _ => none
  | _ => none

end DuplicateState

inductive DuplicateAction where
  | edit (a : EditAction)
  | startReport (accountId : String) (body : TicketBody)
  | report (i : Nat) (id : String)
  | startConfirm (reportId : String) (candidateId : Option String)
  | confirm (i : Nat)
  | correct (reportId : String)
  | complete (i : Nat)

def DuplicateState.act (u : Unicode) (s : DuplicateState) :
    DuplicateAction → Except String DuplicateState
  | .edit (.resolveDuplicate _ _) => .error "duplicates are closed by a completion"
  | .edit a =>
    match s.edits.act a with
    | .error e => .error e
    | .ok edits =>
      let moved := (s.movedTicket a).toList.map fun id => ({ ticketId := id } : Completion)
      .ok { s with edits, completions := s.completions ++ moved }
  | .startReport accountId body => .ok { s with reports := s.reports ++ [{ accountId, body }] }
  | .report i id =>
    match s.reports[i]? with
    | none => .error "no such call"
    | some c =>
      match s.reportStep u id c with
      | some (t, phase) => .ok { t with reports := t.reports.set i { c with phase } }
      | none => .error "no statement to run"
  | .startConfirm reportId candidateId =>
    .ok { s with confirms := s.confirms ++ [{ reportId, candidateId }] }
  | .confirm i =>
    match s.confirms[i]? with
    | none => .error "no such call"
    | some c =>
      match s.confirmStep c with
      | some (t, phase) => .ok { t with confirms := t.confirms.set i { c with phase } }
      | none => .error "no statement to run"
  | .correct reportId => s.correct reportId
  | .complete i =>
    match s.completions[i]?.bind s.completeStep with
    | some (t, c) => .ok { t with completions := t.completions.set i c }
    | none => .error "no statement to run"

/-- Any calls in any interleaving, from a board without tickets. -/
def duplicateSystem (u : Unicode) : Transition DuplicateState DuplicateAction where
  init s := s.edits.db.tickets = [] ∧ s.edits.calls = [] ∧ s.edits.wrote = [] ∧
    s.decisions = [] ∧ s.reports = [] ∧ s.confirms = [] ∧ s.completions = []
  step s a t := s.act u a = .ok t

end WorkflowBoard.Tickets
