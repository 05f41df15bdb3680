import WorkflowBoard.ForStd.RowSave
import WorkflowBoard.ForStd.Transition
import WorkflowBoard.Native.MissionPlan

/-!
# Tool approvals (`orchestration-approval.service.ts`, `orchestration-approval.ts`)

A runtime of a mission asks before it uses a tool, and the trusted orchestrator or the user
answers. Any number of servers share the table: each statement on it is one step, and the
steps of all calls interleave. What a call reads of the mission, its step and the room is
part of the step (`ApprovalRead`), and so is whether the database refuses an update and
whether the orchestrator's room takes a message.

Names, texts for the timeline and the waiting of a poll are left out; a poll may end at any
time.
-/

namespace WorkflowBoard.Orchestration

inductive ApprovalStatus where
  | pending
  | approved
  | denied
  | cancelled
deriving DecidableEq

inductive ApprovalDecision where
  | allow
  | allow_session
  | deny
deriving DecidableEq

/-- The orchestrator may also hand the request to the user. -/
inductive OrchestratorApprovalDecision where
  | answer (decision : ApprovalDecision)
  | escalate

inductive ApprovalRoute where
  | orchestrator
  | user
deriving DecidableEq

inductive ApprovalRequesterRole where
  | member
  | orchestrator
deriving DecidableEq

inductive ApprovalRouteReason where
  | orchestrator_trusted
  | orchestrator_not_trusted
  | orchestrator_request
  | orchestrator_escalated
  | orchestrator_timeout
  | orchestrator_unreachable
deriving DecidableEq

inductive DeciderType where
  | orchestrator
  | user
  | system
deriving DecidableEq

/-- A row of the table. -/
structure OrchestrationApproval where
  id : Nat := 0
  account_id : String
  mission_id : String
  step_id : Option String
  room_id : String
  requester_role : ApprovalRequesterRole
  requester_agent_id : String
  request_key : String
  tool_name : String
  can_allow_session : Bool
  status : ApprovalStatus := .pending
  route : ApprovalRoute
  route_reason : ApprovalRouteReason
  routed_at : Date
  decision : Option ApprovalDecision := none
  decided_by_type : Option DeciderType := none
  decided_by : Option String := none
  decision_note : String := ""
  decided_at : Option Date := none
  last_polled_at : Date
  user_notified_at : Option Date := none
deriving DecidableEq

/-- The key of the unique index. -/
def OrchestrationApproval.key (row : OrchestrationApproval) : String × String :=
  (row.requester_agent_id, row.request_key)

/-! ## What the calls read elsewhere -/

structure ApprovalRoom where
  id : String
  account_id : String
  orchestration_mission_id : Option String
  orchestration_step_id : Option String

/-- A mission; `trusted` is `orchestratorMayApprove`, the tier its orchestrator runs with. -/
structure ApprovalMission where
  id : String
  account_id : String
  status : MissionStatus
  room_id : Option String
  orchestrator_agent_id : Option String
  orchestrator_host : Option String := none
  trusted : Bool

structure ApprovalStep where
  id : String
  mission_id : String
  room_id : Option String
  status : StepStatus
  assignee_agent_id : Option String
  assignee_host : Option String := none

/-- What a step is given by the rest of the system: the rows it reads there, whether the
    database refuses its update, and whether the orchestrator's room takes the message. -/
structure ApprovalRead where
  now : Date := 0
  room : Option ApprovalRoom := none
  mission : Option ApprovalMission := none
  step : Option ApprovalStep := none
  fails : Bool := false
  delivered : Bool := true

/-- The Runtime Host that calls: the account of its key, and the runtime or host it is for. -/
structure ApprovalHostCaller where
  accountId : Option String := none
  runtimeKey : Option String := none
  hostId : Option String := none

structure ApprovalRequestInput where
  room_id : String
  agent_id : String
  request_key : String
  tool_name : String
  can_allow_session : Bool := false

/-- A number of HTTP. -/
abbrev HttpStatus := Nat

def refuseUnless (ok : Bool) (code : HttpStatus) : Except HttpStatus Unit :=
  if ok then .ok () else .error code

/-- A value that is given must be the stored one. -/
def givenIs (given : Option String) (stored : String) : Bool :=
  given.all fun x => x = "" || x = stored

/-- A key speaks for its account, and a runtime key only for its runtime. -/
def assertRequester (stored account : String) (caller : ApprovalHostCaller) (presented : String) :
    Except HttpStatus Unit := do
  refuseUnless (givenIs caller.accountId account) 403
  refuseUnless (givenIs (some presented) stored) 403
  refuseUnless (givenIs caller.runtimeKey stored) 403

/-- A key bound to a host asks for the runtimes of that host. -/
def assertHost (caller : ApprovalHostCaller) (host : Option String) : Except HttpStatus Unit :=
  if caller.runtimeKey.any (· ≠ "") || caller.hostId.all (· = "") then .ok ()
  else refuseUnless (host.all fun h => h = "" || caller.hostId = some h) 403

/-- Who asks: in a step's room its assignee, in the mission's room the orchestrator. -/
def resolveRequester (room : ApprovalRoom) (mission : ApprovalMission) (read : ApprovalRead)
    (agentId : String) (caller : ApprovalHostCaller) :
    Except HttpStatus (ApprovalRequesterRole × Option ApprovalStep) := do
  refuseUnless (givenIs caller.runtimeKey agentId) 403
  match room.orchestration_step_id.filter (· ≠ "") with
  | some stepId =>
    match read.step.filter (·.id = stepId) with
    | none => .error 404
    | some step =>
      refuseUnless (step.mission_id = mission.id) 404
      refuseUnless (callerHoldsId ⟨agentId, some agentId⟩ step.assignee_agent_id) 403
      assertHost caller step.assignee_host
      return (.member, some step)
  | none =>
    refuseUnless (mission.room_id = some room.id &&
      callerHoldsId ⟨agentId, some agentId⟩ mission.orchestrator_agent_id) 403
    assertHost caller mission.orchestrator_host
    return (.orchestrator, none)

def approvalRouteFor (role : ApprovalRequesterRole) (orchestratorTrusted : Bool) :
    ApprovalRoute × ApprovalRouteReason :=
  match role with
  | .orchestrator => (.user, .orchestrator_request)
  | .member =>
    if orchestratorTrusted then (.orchestrator, .orchestrator_trusted)
    else (.user, .orchestrator_not_trusted)

/-- The texts of a request as they are stored. -/
def readRequest (input : ApprovalRequestInput) : Except HttpStatus ApprovalRequestInput := do
  let read : ApprovalRequestInput :=
    { input with
      room_id := sliceText 100 (trimText input.room_id)
      agent_id := sliceText 200 (trimText input.agent_id)
      request_key := sliceText 200 (trimText input.request_key)
      tool_name := sliceText 200 (trimText input.tool_name) }
  refuseUnless (read.room_id ≠ "" && read.agent_id ≠ "" && read.request_key ≠ "" &&
    read.tool_name ≠ "") 400
  return read

/-- The row a request without one inserts; `none` where it is not asked at all. -/
def newApproval (input : ApprovalRequestInput) (caller : ApprovalHostCaller)
    (read : ApprovalRead) : Except HttpStatus (Option OrchestrationApproval) := do
  let room ← orThrow (read.room.filter (·.id = input.room_id)) 404
  let missionId ← orThrow (room.orchestration_mission_id.filter (· ≠ "")) 404
  refuseUnless (givenIs caller.accountId room.account_id) 403
  let mission ← orThrow (read.mission.filter (·.id = missionId)) 404
  let (role, step) ← resolveRequester room mission read input.agent_id caller
  if mission.status.isTerminal then return none
  if step.any fun s => !s.status.isInFlight || s.room_id ≠ some room.id then return none
  let (route, reason) := approvalRouteFor role mission.trusted
  return some
    { account_id := mission.account_id, mission_id := mission.id, step_id := step.map (·.id)
      room_id := room.id, requester_role := role, requester_agent_id := input.agent_id
      request_key := input.request_key, tool_name := input.tool_name
      can_allow_session := input.can_allow_session, route, route_reason := reason
      routed_at := read.now, last_polled_at := read.now }

/-! ## Transitions of a row -/

structure ApprovalDecider where
  type : DeciderType
  id : String
deriving DecidableEq

/-- The conditional updates of a pending row. -/
inductive ApprovalTransition where
  | finalize (decision : ApprovalDecision) (decider : ApprovalDecider) (note : String)
  | cancel (reason : String)
  | escalate (reason : ApprovalRouteReason) (note : String)
deriving DecidableEq

def statusForDecision : ApprovalDecision → ApprovalStatus
  | .deny => .denied
  | _ => .approved

/-- The update also asks for the route: whether the request must be with the orchestrator. -/
def ApprovalTransition.routed : ApprovalTransition → Bool
  | .finalize _ decider _ => decider.type = .orchestrator
  | .cancel _ => false
  | .escalate .. => true

def ApprovalTransition.patch (t : ApprovalTransition) (now : Date) (row : OrchestrationApproval) :
    OrchestrationApproval :=
  match t with
  | .finalize decision decider note =>
    { row with
      status := statusForDecision decision, decision := some decision
      decided_by_type := some decider.type, decided_by := some decider.id
      decision_note := note, decided_at := some now }
  | .cancel reason =>
    { row with
      status := .cancelled, decided_by_type := some .system, decided_by := none
      decision_note := sliceText 500 reason, decided_at := some now }
  | .escalate reason note =>
    { row with
      route := .user, route_reason := reason, routed_at := now
      decision_note := if note = "" then row.decision_note else note }

/-- The condition of the update. -/
def ApprovalTransition.applies (t : ApprovalTransition) (id : Nat) (row : OrchestrationApproval) :
    Bool :=
  row.id = id && row.status = .pending && (!t.routed || row.route = .orchestrator)

/-- `ORCHESTRATION_APPROVAL_ESCALATE_MS` and `APPROVAL_REQUESTER_GONE_MS`. -/
def orchestratorAnswerWindowMs : Int := 10 * 60000

def APPROVAL_REQUESTER_GONE_MS : Int := 3 * 60000

def MissionStatus.text : MissionStatus → String
  | .draft => "draft"
  | .planning => "planning"
  | .running => "running"
  | .paused => "paused"
  | .completed => "completed"
  | .failed => "failed"
  | .cancelled => "cancelled"

/-- `settle`: what a poll does about a request that can no longer be answered usefully. -/
def settleTransition (row : OrchestrationApproval) (read : ApprovalRead) :
    Option ApprovalTransition :=
  match read.mission.filter (·.id = row.mission_id) with
  | none => some (.cancel "the mission was deleted")
  | some mission =>
    if mission.status.isTerminal then some (.cancel ("the mission is " ++ mission.status.text))
    else
      let stale : Option String := match row.step_id.filter (· ≠ "") with
        | some stepId =>
          if (read.step.filter (·.id = stepId)).all fun step =>
            step.room_id ≠ some row.room_id || !step.status.isInFlight
          then some "this step attempt is no longer running" else none
        | none =>
          if mission.room_id ≠ some row.room_id then
            some "the mission conversation moved to another room"
          else none
      if let some reason := stale then some (.cancel reason)
      else if row.route ≠ .orchestrator then none
      else if !mission.trusted then some (.escalate .orchestrator_not_trusted "")
      else if orchestratorAnswerWindowMs < read.now - row.routed_at then
        some (.escalate .orchestrator_timeout "")
      else none

/-! ## Calls -/

inductive ApprovalCall where
  | request (input : ApprovalRequestInput) (caller : ApprovalHostCaller)
  | wait (id : Nat) (agentId : String) (caller : ApprovalHostCaller) (timeoutMs : Nat)
  | cancelByRequester (id : Nat) (agentId : String) (caller : ApprovalHostCaller) (reason : String)
  | decideAsOrchestrator (id : Nat) (caller : OrchestrationCaller)
      (decision : Option OrchestratorApprovalDecision) (reason : String)
  | decideAsUser (id : Nat) (accountId user : String) (decision : Option ApprovalDecision)
      (note : String)
  | sweep

inductive ApprovalReply where
  | view (row : Option OrchestrationApproval)
  | decided (row : OrchestrationApproval) (already_decided : Bool)
  | swept (cancelled escalated : Nat)
  | refused (code : HttpStatus)
deriving DecidableEq

/-- What a call does with the row a transition left. -/
inductive ApprovalThen where
  | request
  | poll (timeoutMs : Nat)
  | byRequester
  | decision
  | gone (rest : List OrchestrationApproval) (cancelled : Nat)
  | overdue (rest : List OrchestrationApproval) (cancelled escalated : Nat)

/-- Where a call stands, with the rows it has read. -/
inductive ApprovalPhase where
  | called (call : ApprovalCall)
  | requested (input : ApprovalRequestInput) (caller : ApprovalHostCaller)
  | inserting (row : OrchestrationApproval)
  | inserted (row : OrchestrationApproval)
  | collided (key : String × String)
  | deciding (row : OrchestrationApproval) (caller : OrchestrationCaller)
      (decision : OrchestratorApprovalDecision) (note : String)
  | answering (row : OrchestrationApproval) (user : String) (decision : ApprovalDecision)
      (note : String)
  | moving (row : OrchestrationApproval) (t : ApprovalTransition) (next : ApprovalThen)
  | moved (row : OrchestrationApproval) (t : ApprovalTransition) (won : Bool) (next : ApprovalThen)
  | polling (row : OrchestrationApproval) (timeoutMs : Nat)
  | settling (row : OrchestrationApproval) (timeoutMs : Nat)
  | checking (row : OrchestrationApproval) (timeoutMs : Nat)
  | waiting (row : OrchestrationApproval)
  | sweepingGone (rest : List OrchestrationApproval) (cancelled : Nat)
  | sweepingOverdue (rest : List OrchestrationApproval) (cancelled escalated : Nat)
  | answered (reply : ApprovalReply)

/-- The history: what the calls did to the rows, what they answered, and the notices. -/
inductive ApprovalEffect where
  | moved (call id : Nat) (t : ApprovalTransition)
  | answered (call : Nat) (reply : ApprovalReply)
  | notified (id : Nat)
deriving DecidableEq

/-- The table, the calls, the notices that are scheduled, and the history. -/
structure Approvals where
  rows : List OrchestrationApproval := []
  calls : List ApprovalPhase := []
  notices : List Nat := []
  log : List ApprovalEffect := []

namespace Approvals

def rowOf (s : Approvals) (id : Nat) : Option OrchestrationApproval := s.rows.find? (·.id = id)

def rowWith (s : Approvals) (key : String × String) : Option OrchestrationApproval :=
  s.rows.find? (·.key = key)

/-- Call `k` goes on. -/
def goTo (s : Approvals) (k : Nat) (phase : ApprovalPhase) : Approvals :=
  { s with calls := s.calls.set k phase }

/-- Call `k` answers. -/
def reply (s : Approvals) (k : Nat) (r : ApprovalReply) : Approvals :=
  { s.goTo k (.answered r) with log := s.log ++ [.answered k r] }

def refuse (s : Approvals) (k : Nat) (code : HttpStatus) : Approvals := s.reply k (.refused code)

/-- Where a check fails, the call is refused. -/
def checked {α : Type} (s : Approvals) (k : Nat) (x : Except HttpStatus α) (f : α → Approvals) :
    Approvals :=
  match x with
  | .error code => s.refuse k code
  | .ok a => f a

/-- The first read of a call. -/
def start (s : Approvals) (k : Nat) (read : ApprovalRead) : ApprovalCall → Approvals
  | .request input caller =>
    s.checked k (readRequest input) fun input =>
      match s.rowWith (input.agent_id, input.request_key) with
      | some row =>
        s.checked k (assertRequester row.requester_agent_id row.account_id caller input.agent_id)
          fun _ => s.reply k (.view (some row))
      | none => s.goTo k (.requested input caller)
  | .wait id agentId caller timeoutMs =>
    s.checked k (orThrow (s.rowOf id) 404) fun row =>
      s.checked k (assertRequester row.requester_agent_id row.account_id caller agentId) fun _ =>
        if row.status ≠ .pending then s.reply k (.view (some row))
        else s.goTo k (.polling row (min 25000 timeoutMs))
  | .cancelByRequester id agentId caller reason =>
    s.checked k (orThrow (s.rowOf id) 404) fun row =>
      s.checked k (assertRequester row.requester_agent_id row.account_id caller agentId) fun _ =>
        if row.status ≠ .pending then s.reply k (.view (some row))
        else
          let given := sliceText 500 (trimText reason)
          s.goTo k (.moving row (.cancel
            (if given = "" then "the requesting session stopped waiting" else given)) .byRequester)
  | .decideAsOrchestrator id caller decision reason =>
    s.checked k (refuseUnless caller.known 401) fun _ =>
      s.checked k (orThrow decision 400) fun decision =>
        s.checked k (orThrow (s.rowOf id) 404) fun row =>
          s.goTo k (.deciding row caller decision (sliceText 2000 (trimText reason)))
  | .decideAsUser id accountId user decision note =>
    s.checked k (orThrow decision 400) fun decision =>
      s.checked k (orThrow ((s.rowOf id).filter fun row => givenIs (some accountId) row.account_id)
        404) fun row => s.goTo k (.answering row user decision (sliceText 2000 (trimText note)))
  | .sweep =>
    let gone := s.rows.filter fun row =>
      row.status = .pending && row.last_polled_at < read.now - APPROVAL_REQUESTER_GONE_MS
    s.goTo k (.sweepingGone ((gone.insertionSort (·.last_polled_at ≤ ·.last_polled_at)).take 100) 0)

/-- What the orchestrator's answer does, on the row as it was read. -/
def decideOn (s : Approvals) (k : Nat) (read : ApprovalRead) (row : OrchestrationApproval)
    (caller : OrchestrationCaller) (decision : OrchestratorApprovalDecision) (note : String) :
    Approvals :=
  s.checked k (orThrow (read.mission.filter (·.id = row.mission_id)) 404) fun mission =>
    s.checked k (refuseUnless (callerHoldsId caller mission.orchestrator_agent_id) 403) fun _ =>
      s.checked k (refuseUnless mission.trusted 403) fun _ =>
        if row.status ≠ .pending then
          match decision with
          | .answer d =>
            if row.decision = some d then s.reply k (.decided row true) else s.refuse k 409
          | .escalate => s.refuse k 409
        else if row.route ≠ .orchestrator then s.refuse k 409
        else
          let decider : ApprovalDecider :=
            ⟨.orchestrator, (caller.runtimeKey.filter (· ≠ "")).getD caller.agentId⟩
          s.goTo k (.moving row (match decision with
            | .answer d => .finalize d decider note
            | .escalate => .escalate .orchestrator_escalated note) .decision)

/-- What the user's answer does, on the row as it was read. -/
def answerOn (s : Approvals) (k : Nat) (read : ApprovalRead) (row : OrchestrationApproval)
    (user : String) (decision : ApprovalDecision) (note : String) : Approvals :=
  s.checked k (orThrow (read.mission.filter fun m =>
      m.id = row.mission_id && givenIs (some row.account_id) m.account_id) 404) fun _ =>
    if row.status ≠ .pending then
      if row.decision = some decision then s.reply k (.decided row true) else s.refuse k 409
    else s.goTo k (.moving row (.finalize decision ⟨.user, user⟩ note) .decision)

/-- `compareAndSet`; an update that throws moved nothing. -/
def compareAndSet (s : Approvals) (k : Nat) (read : ApprovalRead) (row : OrchestrationApproval)
    (t : ApprovalTransition) (next : ApprovalThen) : Approvals :=
  let (won, rows) := updateWhere (t.applies row.id) (t.patch read.now) s.rows
  if won && !read.fails then
    { s with
      rows, calls := s.calls.set k (.moved row t true next), log := s.log ++ [.moved k row.id t] }
  else s.goTo k (.moved row t false next)

/-- What a decision answers when it has read the row again. -/
def decisionReply (fresh : OrchestrationApproval) (won : Bool) : ApprovalTransition → ApprovalReply
  | .finalize decision _ _ =>
    if won then .decided fresh false
    else if fresh.status ≠ .pending ∧ fresh.decision = some decision then .decided fresh true
    else .refused 409
  | _ =>
    -- an escalation that lost its update still answers as if it had not
    if fresh.route ≠ .user ∧ fresh.status = .pending then .refused 409 else .decided fresh false

/-- A notice to the user is scheduled where the call has escalated the request. -/
def escalated (s : Approvals) (id : Nat) (won : Bool) : ApprovalTransition → Approvals
  | .escalate .. => if won then { s with notices := s.notices ++ [id] } else s
  | _ => s

/-- The call goes on with the row read again. -/
def resume (s : Approvals) (k : Nat) (row : OrchestrationApproval) (t : ApprovalTransition)
    (won : Bool) (next : ApprovalThen) : Approvals :=
  let fresh := (s.rowOf row.id).getD row
  let s := s.escalated row.id won t
  match next with
  | .request | .byRequester => s.reply k (.view (some fresh))
  | .poll timeoutMs =>
    if fresh.status ≠ .pending then s.reply k (.view (some fresh))
    else s.goTo k (.checking fresh timeoutMs)
  | .decision => s.reply k (decisionReply fresh won t)
  | .gone rest cancelled =>
    s.goTo k (.sweepingGone rest (cancelled + if fresh.status = .cancelled then 1 else 0))
  | .overdue rest cancelled escalated =>
    s.goTo k (.sweepingOverdue rest cancelled
      (escalated + if fresh.route = .user ∧ fresh.status = .pending then 1 else 0))

/-- The next step of call `k`. -/
def advance (s : Approvals) (k : Nat) (read : ApprovalRead) : ApprovalPhase → Approvals
  | .called call => s.start k read call
  | .requested input caller =>
    s.checked k (newApproval input caller read) fun
      | none => s.reply k (.view none)
      | some row => s.goTo k (.inserting row)
  | .inserting row =>
    -- the unique index keeps one row of a key
    if read.fails || (s.rowWith row.key).isSome then s.goTo k (.collided row.key)
    else
      let row := { row with id := s.rows.length }
      { s.goTo k (.inserted row) with rows := s.rows ++ [row] }
  | .collided key =>
    s.checked k (orThrow (s.rowWith key) 500) fun row => s.reply k (.view (some row))
  | .inserted row =>
    match row.route with
    | .orchestrator =>
      if read.delivered then s.reply k (.view (some row))
      else s.goTo k (.moving row (.escalate .orchestrator_unreachable "") .request)
    | .user => { s.reply k (.view (some row)) with notices := s.notices ++ [row.id] }
  | .deciding row caller decision note => s.decideOn k read row caller decision note
  | .answering row user decision note => s.answerOn k read row user decision note
  | .moving row t next => s.compareAndSet k read row t next
  | .moved row t won next => s.resume k row t won next
  | .polling row timeoutMs =>
    let rows := if read.fails then s.rows
      else (updateWhere (fun r => r.id = row.id && r.status = .pending)
        (fun r => { r with last_polled_at := read.now }) s.rows).2
    { s.goTo k (.settling row timeoutMs) with rows }
  | .settling row timeoutMs =>
    match settleTransition row read with
    | some t => s.goTo k (.moving row t (.poll timeoutMs))
    | none => s.goTo k (.checking row timeoutMs)
  | .checking row timeoutMs =>
    let current := s.rowOf row.id
    if current.all (·.status ≠ .pending) || timeoutMs = 0 then
      s.reply k (.view (some (current.getD row)))
    else s.goTo k (.waiting row)
  | .waiting row => s.reply k (.view (some ((s.rowOf row.id).getD row)))
  | .sweepingGone rest cancelled =>
    match rest with
    | row :: rest =>
      s.goTo k (.moving row (.cancel "the requesting session is no longer waiting for an answer")
        (.gone rest cancelled))
    | [] =>
      let overdue := s.rows.filter fun row => row.status = .pending && row.route = .orchestrator &&
        row.routed_at < read.now - orchestratorAnswerWindowMs
      s.goTo k (.sweepingOverdue
        ((overdue.insertionSort (·.routed_at ≤ ·.routed_at)).take 100) cancelled 0)
  | .sweepingOverdue rest cancelled escalated =>
    match rest with
    | row :: rest =>
      s.goTo k
        (.moving row (.escalate .orchestrator_timeout "") (.overdue rest cancelled escalated))
    | [] => s.reply k (.swept cancelled escalated)
  | .answered _ => s

/-- The claim of the user's notice. -/
def claimNotice (s : Approvals) (id : Nat) (read : ApprovalRead) : Approvals :=
  let (won, rows) := updateWhere (fun row => row.id = id && row.status = .pending &&
    row.route = .user && row.user_notified_at.isNone)
    (fun row => { row with user_notified_at := some read.now }) s.rows
  let s := { s with notices := s.notices.erase id }
  if won && !read.fails then { s with rows, log := s.log ++ [.notified id] } else s

end Approvals

/-! ## Steps -/

inductive ApprovalAction where
  /-- A call arrives at some server. -/
  | call (call : ApprovalCall)
  /-- Call `k` makes its next step. -/
  | advance (k : Nat) (read : ApprovalRead)
  /-- A scheduled notice is sent. -/
  | notify (id : Nat) (read : ApprovalRead)

/-- One step; the second component tells whether there is one. -/
def ApprovalAction.run (s : Approvals) : ApprovalAction → Option Approvals
  | .call c => some { s with calls := s.calls ++ [.called c] }
  | .advance k read => (s.calls[k]?).map (s.advance k read)
  | .notify id read => if id ∈ s.notices then some (s.claimNotice id read) else none

def approvalSystem : Transition Approvals ApprovalAction where
  init s := s = {}
  step s a s' := a.run s = some s'

end WorkflowBoard.Orchestration
