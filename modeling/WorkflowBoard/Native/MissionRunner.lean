import WorkflowBoard.Native.MissionPlan
import WorkflowBoard.Native.PostActions
import WorkflowBoard.ForStd.Transition

/-!
# The runner of a mission (`orchestration-runner.service.ts`, `orchestration-mission.service.ts`)

The operations on one mission: its life from the draft to a terminal status and back, the
steps' updates by the orchestrator, the reports of the members, the decisions of the user
and the reaper's calls. Each holds the mission's lock from its first read to its last save.

`Action.run` is what a call leaves behind and answers; a refused call may have saved
something before it was refused. What the call reads from outside the mission (the team, the
time, whether a message is delivered) is part of the action. The account checks of the user's
calls and the rooms of the steps are left out.
-/

namespace WorkflowBoard.Orchestration

/-- What a call answers when it is not refused. -/
inductive Reply where
  | done
  | alreadyDecided
  | skipped
  | noticed
  | redispatched
  | terminal
deriving DecidableEq

structure Outcome where
  runner : Runner
  reply : Except Refusal Reply

/-! ## `createMission` and `updateMission` -/

def MAX_STEPS_CEILING : Int := 200

def MAX_PARALLEL_CEILING : Int := 12

/-- `clampInt` on a whole number. -/
def clampInt (value : Option Int) (fallback : Nat) (lo hi : Int) : Nat :=
  match value with
  | none => fallback
  | some v => (max lo (min hi v)).toNat

structure MissionInput where
  completion_criteria : List MissionCompletionCriterion := []
  post_actions : List PostActionInput := []
  projects : List ProjectName := []
  folder_scope : MemberFolderScope := .shared
  orchestrator_agent_id : Option String := none
  max_parallel_steps : Option Int := none
  teamParallelSteps : Nat := 1
  max_steps : Option Int := none
  max_plan_versions : Option Int := none
  graph_enabled : Bool := false
  confirm_policy : ConfirmPolicy := .auto

/-- The row of a new mission, or `none` where the criteria are refused. -/
def createMission (input : MissionInput) : Option Runner := do
  let criteria ← normalizeCompletionCriteria input.completion_criteria
  let postActions := normalizePostActions input.post_actions
  return {
    mission := {
      projects := input.projects, folder_scope := input.folder_scope
      orchestrator_agent_id := input.orchestrator_agent_id.filter (· ≠ "")
      max_parallel_steps :=
        clampInt input.max_parallel_steps input.teamParallelSteps 1 MAX_PARALLEL_CEILING
      max_steps := clampInt input.max_steps 60 1 MAX_STEPS_CEILING
      max_plan_versions := clampInt input.max_plan_versions 6 1 50
      graph_enabled := input.graph_enabled, confirm_policy := input.confirm_policy
      completion_criteria := criteria, post_actions := postActions
      post_actions_pending := postActions ≠ [] } }

/-- The fields of a patch; `brief` and `options` say whether it has one of the brief, or of
    the options, that this model leaves out. -/
structure MissionPatch where
  brief : Bool := false
  options : Bool := false
  user_chat_mode : Bool := false
  completion_criteria : Option (List MissionCompletionCriterion) := none
  post_actions : Option (List PostActionInput) := none
  projects : Option (List ProjectName) := none
  folder_scope : Option MemberFolderScope := none
  graph_enabled : Option Bool := none
  confirm_policy : Option ConfirmPolicy := none
  max_parallel_steps : Option Int := none
  max_steps : Option Int := none
  max_plan_versions : Option Int := none
deriving DecidableEq

def MissionPatch.touchesBrief (p : MissionPatch) : Bool :=
  p.brief || p.completion_criteria.isSome || p.post_actions.isSome || p.projects.isSome ||
    p.folder_scope.isSome || p.graph_enabled.isSome || p.confirm_policy.isSome

def MissionPatch.onlyChatOption (p : MissionPatch) : Bool :=
  p.user_chat_mode && !p.touchesBrief && !p.options && p.max_parallel_steps.isNone &&
    p.max_steps.isNone && p.max_plan_versions.isNone

/-- Where a call of `startMission` or `reopenMission` throws once its checks have passed. -/
inductive StartFate where
  | succeeds
  | prepare
  | room
  | prompt
  | brief

/-- The team of the mission as `effectiveSlots` returns it, and what else the start reads. -/
structure StartView where
  team : Bool := true
  enabled : Bool := true
  orchestrator : Option RosterSlot
  members : List RosterSlot
  projectsMissing : Bool := false
  host_folders : String → List (String × String)
  approvalProblem : Bool := false
  others : List MissionRuntimeRoster := []
  room : String
  fate : StartFate := .succeeds

inductive CompletionStatus where
  | completed
  | failed
deriving DecidableEq

def CompletionStatus.toMission : CompletionStatus → MissionStatus
  | completed => .completed
  | failed => .failed

structure CriterionUpdate where
  key : String
  isMet : Bool
  note : Option String := none

inductive StepAction where
  | retry
  | reassign
  | amend
  | skip
  | cancel
  | set_retry_budget
deriving DecidableEq

structure StepUpdate where
  action : StepAction
  assignee : Option String := none
  assignee_agent_id : Option String := none
  project : Option String := none
  instructions : Option String := none
  acceptance_criteria : Option String := none
  max_attempts : Option Int := none

inductive ReportedStatus where
  | done
  | failed
  | blocked

def ReportedStatus.toStep : ReportedStatus → StepStatus
  | done => .done
  | failed => .failed
  | blocked => .blocked

structure StepReport where
  status : ReportedStatus
  summary : String := ""
  artifacts : List Artifact := []
  verdict : String := ""
  visit : Option Int := none
  lease_token : Option Nat := none

/-- `normalizeArtifacts`. -/
def normalizeArtifacts (input : List Artifact) : List Artifact :=
  ((input.take MAX_ARTIFACTS_PER_STEP).map fun a =>
    { kind := sliceText 40 a.kind, ref := sliceText 500 a.ref, label := sliceText 200 a.label :
      Artifact }).filter (·.ref ≠ "")

structure ConfirmInput where
  verdict : String
  feedback : String := ""
  visit : Int
  userId : String := ""
  userName : String := ""
deriving DecidableEq

def CONFIRM_FEEDBACK_MAX : Nat := 4000

/-- No character outside ASCII is lowered to a letter of the two words. -/
def readConfirmVerdict (raw : String) : Option ConfirmVerdict :=
  [ConfirmVerdict.pass, .fail].find? (·.text = (trimText raw).toLower)

def MAX_STEP_ATTEMPTS_CEILING : Int := 20

def MANUAL_RECOVERY : String :=
  " 이 step 은 retry_policy='manual'(비멱등·위험 작업)로 선언돼 있어 자동으로 다시 실행하지 않는다. 이미 어디까지 반영됐는지 " ++
    "사람이 확인한 뒤 update_orchestration_step(action='retry') 또는 재배정으로만 재개할 수 있다."

namespace Runner

/-- A call that is refused and leaves what it has saved so far. -/
def refused (r : Runner) (e : Refusal) : Outcome := ⟨r, .error e⟩

/-- A call that saves nothing before its last check. -/
def settled (r : Runner) (x : Except Refusal Runner) : Outcome :=
  match x with
  | .ok r => ⟨r, .ok .done⟩
  | .error e => r.refused e

def updateMission (r : Runner) (p : MissionPatch) : Except Refusal Runner := do
  let m := r.mission
  require (!m.status.isTerminal || p.onlyChatOption) (.missionIs m.status)
  require (m.status = .draft || !p.touchesBrief) (.missionIs m.status)
  let criteria ← match p.completion_criteria with
    | none => .ok m.completion_criteria
    | some given => orThrow (normalizeCompletionCriteria given) .badRequest
  let post_actions := match p.post_actions with
    | none => m.post_actions
    | some given => normalizePostActions given
  let mission := { m with
    completion_criteria := criteria, post_actions
    post_actions_pending :=
      if p.post_actions.isSome then post_actions ≠ [] else m.post_actions_pending
    projects := p.projects.getD m.projects
    folder_scope := p.folder_scope.getD m.folder_scope
    graph_enabled := p.graph_enabled.getD m.graph_enabled
    confirm_policy := p.confirm_policy.getD m.confirm_policy
    max_parallel_steps :=
      clampInt p.max_parallel_steps m.max_parallel_steps 1 MAX_PARALLEL_CEILING
    max_steps := clampInt p.max_steps m.max_steps 1 MAX_STEPS_CEILING
    max_plan_versions := clampInt p.max_plan_versions m.max_plan_versions 1 50 }
  return (r.saveMission mission).record (if p.post_actions.isSome then [.listed] else [])

/-! ## The mission's life -/

/-- `resolveRoster` behind the checks of the team, with the check of shared folders. -/
def resolveRoster (m : Mission) (v : StartView) (preferred : Option String)
    (keep : MissionRuntimeRoster → MissionRuntimeRoster) :
    Except Refusal MissionRuntimeRoster := do
  require (!v.projectsMissing) .teamUnfit
  let orchestrator ← orThrow v.orchestrator .teamUnfit
  require (v.members ≠ []) .teamUnfit
  require (!v.approvalProblem) .teamUnfit
  let projects := m.projects.map fun p =>
    { id := p.id, name := p.name, host_folders := v.host_folders p.id : MissionProject }
  let roster ← orThrow
    (resolveMissionRoster orchestrator v.members projects m.folder_scope preferred) .teamUnfit
  let roster := keep roster
  require (!sharedFolderConflict roster v.others) .sharedFolder
  return roster

def requireTeam (v : StartView) : Except Refusal Unit := do
  require v.team .notFound
  require v.enabled .teamUnfit

/-- The checks of `startMission`: the roster and the runtime of the orchestrator. -/
def startChecks (m : Mission) (v : StartView) :
    Except Refusal (MissionRuntimeRoster × MissionRuntime) := do
  require (m.status = .draft) (.missionIs m.status)
  requireTeam v
  let roster ← resolveRoster m v m.orchestrator_agent_id id
  let orchestrator ← orThrow (orchestratorRuntime roster) .teamUnfit
  return (roster, orchestrator)

def startMission (r : Runner) (v : StartView) (now : Date) : Outcome :=
  let m := r.mission
  match startChecks m v with
  | .error e => r.refused e
  | .ok (roster, orchestrator) =>
    let withRoster := r.saveMission { m with runtime_roster := some roster }
    let started := r.saveMission { m with
      runtime_roster := some roster, room_id := some v.room
      orchestrator_agent_id := some orchestrator.agent_id
      orchestrator_spec := some orchestrator.spec, status := .planning, started_at := some now }
    match v.fate with
    | .prepare => (r.saveMission { m with runtime_roster := none }).refused .notPrepared
    | .room => withRoster.refused .notPrepared
    | .prompt => started.refused .notPrepared
    | .brief =>
      (started.saveMission { started.mission with
        status := .draft, room_id := none, started_at := none,
        runtime_roster := none }).refused .notDelivered
    | .succeeds => ⟨started, .ok .done⟩

def pauseMission (r : Runner) : Except Refusal Runner := do
  let m := r.mission
  require (!m.status.isTerminal) (.missionIs m.status)
  return r.saveMission { m with status := .paused }

def resumeMission (r : Runner) (now : Date) (fates : String → DispatchFate) :
    Except Refusal Runner := do
  let m := r.mission
  require (m.status = .paused) (.missionIs m.status)
  let status := if 0 < m.plan_version then .running else .planning
  return (r.saveMission { m with status }).pump now fates

/-- Cancel the steps that satisfy `p`. -/
def cancelSteps (r : Runner) (p : Step → Bool) (now : Date) : Runner :=
  (r.saveSteps p fun s => { s with status := .cancelled, finished_at := some now }).record
    ((r.steps.filter p).map (.ended ·.step_key))

def cancelMission (r : Runner) (reason : String) (now : Date) : Except Refusal Runner := do
  let m := r.mission
  require (!m.status.isTerminal) (.missionIs m.status)
  let failure_reason :=
    sliceText 2000 (if reason = "" then "cancelled by operator" else reason)
  return ((r.cancelSteps (!·.status.isTerminal) now).saveMission
    { m with status := .cancelled, failure_reason, finished_at := some now }).record
      [.closed .cancel]

/-- The checks of `reopenMission` for a mission that was started: its new roster, if it names
    projects. -/
def reopenChecks (m : Mission) (v : StartView) : Except Refusal (Option MissionRuntimeRoster) := do
  requireTeam v
  if m.projects = [] then return none
  let roster ← resolveRoster m v none (keepOrchestratorRuntime · m.orchestrator_spec)
  return some roster

def reopenMission (r : Runner) (agent : Option OrchestrationCaller) (v : StartView) : Outcome :=
  let m := r.mission
  let allowed : Except Refusal Unit := do
    match agent with
    | some caller => requireOrchestrator m caller
    | none => .ok ()
    require m.status.isTerminal (.missionIs m.status)
  match allowed with
  | .error e => r.refused e
  | .ok _ =>
    if m.room_id.all (· = "") then
      ⟨(r.saveMission { m with status := .draft, finished_at := none, failure_reason := "" }).record
        [.reopened], .ok .done⟩
    else
      match reopenChecks m v with
      | .error e => r.refused e
      | .ok roster =>
        let reopened := (r.saveMission { m with
          runtime_roster := roster.or m.runtime_roster, status := .running, finished_at := none,
          failure_reason := "" }).record [.reopened]
        match v.fate with
        -- the roster saved before the preparation is put back
        | .prepare => r.refused .notPrepared
        | .room | .prompt | .brief => reopened.refused .notDelivered
        | .succeeds => ⟨reopened, .ok .done⟩

def completeMission (r : Runner) (caller : OrchestrationCaller) (status : CompletionStatus)
    (summary : String) (now : Date) : Except Refusal Runner := do
  let m := r.mission
  requireOrchestrator m caller
  require (!m.status.isTerminal) (.missionIs m.status)
  require (status = .failed || r.steps.all (!·.status.isInFlight)) .stepsInFlight
  require (status = .failed || allCriteriaMet m.completion_criteria) .criteriaNotMet
  let ended := { m with
    status := status.toMission, result_summary := sliceText SUMMARY_MAX summary
    finished_at := some now
    failure_reason :=
      if status = .failed then "orchestrator declared the mission failed" else m.failure_reason }
  return (((r.cancelSteps (·.status.isInFlight) now).saveMission ended).record
    [.closed .complete]).runPostActions

def updateCriteria (r : Runner) (caller : OrchestrationCaller) (updates : List CriterionUpdate) :
    Except Refusal Runner := do
  let m := r.mission
  requireOrchestrator m caller
  require (!m.status.isTerminal) (.missionIs m.status)
  require (m.completion_criteria ≠ []) .badRequest
  require (updates.all fun u => m.completion_criteria.any (·.key = trimText u.key)) .badRequest
  let next := m.completion_criteria.map fun c =>
    updates.foldl (fun c u =>
      if trimText u.key = c.key then
        { c with isMet := u.isMet, note := sliceText 1000 (u.note.getD c.note) }
      else c) c
  let criteria ← orThrow (normalizeCompletionCriteria next) .badRequest
  return r.saveMission { m with completion_criteria := criteria }

/-! ## `updateStep` -/

/-- The assignment an update asks for; resolved before anything is saved. -/
def updateAssignment (m : Mission) (fresh : Step) (input : StepUpdate) :
    Except Refusal PlanAssignment := do
  let requestedAssignee := planAssignee input.assignee input.assignee_agent_id
  let requestedProject := trimText (input.project.getD "")
  if requestedAssignee = "" ∧ requestedProject = "" then return .keep
  let slot := if requestedAssignee ≠ "" then requestedAssignee else fresh.assignee_slot.getD ""
  if slot ≠ "" then
    let a ← assignmentFor m slot
      (if requestedProject ≠ "" then some requestedProject else fresh.project_id)
    return .assign a
  else
    let id ← missionProjectId m requestedProject
    return .project id

/-- The attempt budget an update gives, checked against the attempts used. -/
def updateBudget (fresh : Step) (input : StepUpdate) : Except Refusal Nat := do
  match input.max_attempts with
  | none =>
    require (input.action ≠ .set_retry_budget) .badRequest
    return fresh.max_attempts
  | some requested =>
    require (1 ≤ requested && requested ≤ MAX_STEP_ATTEMPTS_CEILING) .badRequest
    require (fresh.attempt ≤ requested) .attemptsUsed
    return requested.toNat

/-- The texts an update gives. -/
def reworded (s : Step) (input : StepUpdate) : Step :=
  { s with
    instructions := (input.instructions.map trimText).getD s.instructions
    acceptance_criteria := (input.acceptance_criteria.map trimText).getD s.acceptance_criteria }

def reassigned (s : Step) : PlanAssignment → Step
  | .keep => s
  | .assign a => s.assign a
  | .project id => { s with project_id := some id }

/-- The step as `reassign` saves it: an ended step is pending again. -/
def reopenedBy (s : Step) (a : Assignment) : Step :=
  { s.assign a with
    status := if s.status.isTerminal then .pending else s.status, recovery_reason := "" }

/-- The step as `retry` saves it. -/
def retried (s : Step) (input : StepUpdate) (a : PlanAssignment) : Step :=
  { reassigned (reworded s input) a with
    status := .pending, finished_at := none, started_at := none, recovery_reason := "" }

/-- A retry without an assignment of its own refreshes the stored one, if it still resolves. -/
def refreshAssignment (m : Mission) (fresh : Step) : PlanAssignment :=
  match fresh.assignee_slot.filter (· ≠ "") with
  | none => .keep
  | some slot =>
    match assignmentFor m slot fresh.project_id with
    | .ok a => .assign a
    | .error _ => .keep

/-- The branches of the switch, with the step as it is saved. -/
def performAction (r : Runner) (fresh : Step) (input : StepUpdate) (a : PlanAssignment)
    (now : Date) : Except Refusal Runner := do
  match input.action with
  | .set_retry_budget => return r
  | .skip | .cancel =>
    require (!fresh.status.isInFlight) (.stepIs fresh.status)
    let status := if input.action = .skip then .skipped else .cancelled
    return (r.saveStep { fresh with status, finished_at := some now }).record
      [.ended fresh.step_key]
  | .amend =>
    require (!fresh.status.isInFlight) (.stepIs fresh.status)
    return r.saveStep (reassigned (reworded fresh input) a)
  | .reassign =>
    match a with
    | .assign a =>
      require (!fresh.status.isInFlight) (.stepIs fresh.status)
      return (r.saveStep (reopenedBy fresh a)).record [.redone fresh.step_key]
    | _ => .error .badRequest
  | .retry =>
    require (!fresh.status.isInFlight) (.stepIs fresh.status)
    require (fresh.attempt < fresh.max_attempts) .attemptsUsed
    let a := if a = .keep then refreshAssignment r.mission fresh else a
    return (r.saveStep (retried fresh input a)).record [.redone fresh.step_key]

/-- The checks of `updateStep`: the step, the assignment and the attempt budget. -/
def updateChecks (r : Runner) (key : String) (caller : OrchestrationCaller) (input : StepUpdate) :
    Except Refusal (Step × PlanAssignment × Nat) := do
  let fresh ← orThrow (r.stepOf key) .notFound
  requireOrchestrator r.mission caller
  require (!r.mission.status.isTerminal) (.missionIs r.mission.status)
  let a ← updateAssignment r.mission fresh input
  let max_attempts ← updateBudget fresh input
  return (fresh, a, max_attempts)

/-- The attempt budget is saved before the action is checked. -/
def updateStep (r : Runner) (key : String) (caller : OrchestrationCaller) (input : StepUpdate)
    (now : Date) (fates : String → DispatchFate) : Outcome :=
  match r.updateChecks key caller input with
  | .error e => r.refused e
  | .ok (fresh, a, max_attempts) =>
    let fresh := { fresh with max_attempts }
    let r := r.saveStep fresh
    match r.performAction fresh input a now with
    | .error e => r.refused e
    | .ok r => ⟨r.unblockAutoBlockedDependents.settle now fates, .ok .done⟩

/-! ## Reports -/

/-- A step without a token, such as one dispatched before the upgrade, lets every report
    through. -/
def requireFreshLease (step : Step) (presented : Option Nat) : Except Refusal Unit :=
  match step.lease_token with
  | none => .ok ()
  | some held => require (presented = some held) .staleLease

/-- The step with a sign of life. -/
def progressed (step : Step) (checkpoint : Option String) (now : Date) : Step :=
  { step with
    status := if step.status = .dispatched then .running else step.status
    started_at := step.started_at.or (some now), last_heartbeat_at := some now
    lease_stale_since := none, checkpoint := checkpoint.or step.checkpoint }

def reportProgress (r : Runner) (key : String) (caller : OrchestrationCaller)
    (leaseToken : Option Nat) (checkpoint : Option String) (now : Date) :
    Except Refusal Runner := do
  let fresh ← orThrow (r.stepOf key) .notFound
  requireStepActor fresh r.mission caller
  require (!fresh.status.isTerminal) (.stepIs fresh.status)
  requireFreshLease fresh leaseToken
  return r.saveStep (progressed fresh checkpoint now)

/-- A report to a graph mission names the visit it is about. -/
def requireVisit (m : Mission) (step : Step) (visit : Option Int) : Except Refusal Unit := do
  require (m.graph_spec.isNone || visit.isSome) .staleVisit
  require (visit.all (· = (step.visit : Int))) .staleVisit

/-- The step as a report leaves it; of its verdict only ASCII letters are lowered. -/
def reported (step : Step) (input : StepReport) (now : Date) : Step :=
  { step with
    status := input.status.toStep, result_summary := sliceText SUMMARY_MAX input.summary
    artifacts := normalizeArtifacts input.artifacts
    verdict := sliceText 48 (trimText input.verdict).toLower
    finished_at := some now, started_at := step.started_at.or (some now) }

/-- The checks of `reportStep`. -/
def reportChecks (r : Runner) (key : String) (caller : OrchestrationCaller) (input : StepReport) :
    Except Refusal Step := do
  let step ← orThrow (r.stepOf key) .notFound
  requireStepActor step r.mission caller
  require (!r.mission.status.isTerminal) (.missionIs r.mission.status)
  require (!step.status.isTerminal) (.stepIs step.status)
  requireFreshLease step input.lease_token
  requireVisit r.mission step input.visit
  return step

/-- The saved report, before anything follows from it. -/
def saveReport (r : Runner) (step : Step) (input : StepReport) (now : Date) : Runner :=
  (r.saveStep (reported step input now)).record [.ended step.step_key]

def reportStep (r : Runner) (key : String) (caller : OrchestrationCaller) (input : StepReport)
    (now : Date) (fates : String → DispatchFate) : Except Refusal Runner := do
  let step ← r.reportChecks key caller input
  return ((r.saveReport step input now).applyGraphTransitions (reported step input now)).settle
    now fates

/-! ## `submitConfirmDecision` -/

/-- The step with the user's answer. -/
def decided (step : Step) (verdict : ConfirmVerdict) (input : ConfirmInput) (now : Date) : Step :=
  let feedback := sliceText CONFIRM_FEEDBACK_MAX (trimText input.feedback)
  { step with
    confirm_decision := some
      ⟨verdict, feedback, input.userId, input.userName, now, step.visit⟩
    verdict := verdict.text
    result_summary := sliceText SUMMARY_MAX ("User confirmation: " ++ verdict.text.toUpper ++
      if feedback = "" then "\n\n(no feedback given)" else "\n\n" ++ feedback)
    status := .done, started_at := step.started_at.or (some now), finished_at := some now }

/-- The checks of `submitConfirmDecision`; `none` is an answer that has been accepted before. -/
def confirmChecks (r : Runner) (key : String) (input : ConfirmInput) :
    Except Refusal (Option (Step × ConfirmVerdict)) := do
  let verdict ← orThrow (readConfirmVerdict input.verdict) .badRequest
  require (1 ≤ input.visit) .badRequest
  let step ← orThrow (r.stepOf key) .notFound
  require (!r.mission.status.isTerminal) (.missionIs r.mission.status)
  require (isConfirmNode r.mission step.step_key) .notConfirmNode
  match step.confirm_decision.filter (input.visit = ·.visit) with
  | some prior =>
    require (prior.verdict = verdict) .alreadyDecided
    return none
  | none =>
    require step.status.isAwaitingUser (.stepIs step.status)
    require (input.visit = step.visit) .staleVisit
    return some (step, verdict)

/-- The saved decision, before the graph goes on. -/
def saveDecision (r : Runner) (step : Step) (verdict : ConfirmVerdict) (input : ConfirmInput)
    (now : Date) : Runner :=
  (r.saveStep (decided step verdict input now)).record
    [.decided step.step_key step.visit verdict]

/-- The graph goes on from the gate. -/
def resumeFromGate (r : Runner) (step : Step) (now : Date) (fates : String → DispatchFate) :
    Runner :=
  ((r.record [.routed step.step_key]).applyGraphTransitions step).settle now fates

def submitConfirmDecision (r : Runner) (key : String) (input : ConfirmInput) (now : Date)
    (fates : String → DispatchFate) : Outcome :=
  match r.confirmChecks key input with
  | .error e => r.refused e
  | .ok none => ⟨r, .ok .alreadyDecided⟩
  | .ok (some (step, verdict)) =>
    ⟨(r.saveDecision step verdict input now).resumeFromGate (decided step verdict input now) now
      fates, .ok .done⟩

/-! ## The reaper's calls -/

/-- The step without an attempt that can still report. -/
def unrecoverable (step : Step) (reason : String) (budgetLeft : Bool) (now : Date) : Step :=
  let manual := step.retry_policy = .manual
  let budget := step.max_attempts
  let why := if manual then reason ++ MANUAL_RECOVERY
    else if budgetLeft then reason
    else reason ++ s!" 재시도 예산 {budget}회를 모두 소진했다."
  { step with
    status := if manual then .needs_recovery else .failed
    recovery_reason := if manual then why else ""
    result_summary := sliceText SUMMARY_MAX why, finished_at := some now, lease_token := none
    lease_stale_since := none }

def finalizeUnrecoverableStep (r : Runner) (step : Step) (reason : String) (budgetLeft : Bool)
    (now : Date) (fates : String → DispatchFate) : Runner :=
  ((r.saveStep (unrecoverable step reason budgetLeft now)).record
    [.ended step.step_key]).settle now fates

/-- The last sign of life of a step. -/
def baseline (step : Step) : Option Date :=
  step.last_heartbeat_at.or (step.started_at.or step.dispatched_at)

def leaseExpired (silentMs : Int) : String :=
  let minutes := (silentMs + 30000) / 60000
  s!"[lease expired] no sign of life for {minutes} minutes and no answer to the " ++
    "reconnect request within the grace window."

/-- The second half of `reconcileStaleLease`: the grace window has passed. -/
def recoverLease (r : Runner) (step : Step) (silentMs : Int) (now : Date)
    (fates : String → DispatchFate) : Outcome :=
  let budgetLeft := step.attempt < step.max_attempts
  let reason := leaseExpired silentMs
  if step.retry_policy = .manual ∨ !budgetLeft then
    ⟨r.finalizeUnrecoverableStep step reason budgetLeft now fates, .ok .terminal⟩
  else
    let step := { step with lease_stale_since := none }
    let r := (r.saveStep step).unblockAutoBlockedDependents
    match r.dispatchStep step now (fates step.step_key) with
    | (r, _, none) => ⟨r, .ok .redispatched⟩
    | (r, step, some error) =>
      ⟨r.finalizeUnrecoverableStep step (reason ++ " Re-dispatch also failed: " ++ error) budgetLeft
        now fates, .ok .terminal⟩

def reconcileStaleLease (r : Runner) (key : String) (now : Date) (graceMs : Int)
    (timeoutMinutes : Int) (fates : String → DispatchFate) : Outcome :=
  match r.stepOf key with
  | none => r.refused .notFound
  | some step =>
    if !step.status.isInFlight ∨ r.mission.status ≠ .running then ⟨r, .ok .skipped⟩
    else
      match baseline step with
      | none => ⟨r, .ok .skipped⟩
      | some at_ =>
        let silentMs := now - at_
        if silentMs < timeoutMinutes * 60000 then
          ⟨r.saveStep { step with lease_stale_since := none }, .ok .skipped⟩
        else
          match step.lease_stale_since with
          | none => ⟨r.saveStep { step with lease_stale_since := some now }, .ok .noticed⟩
          | some since =>
            if now - since < graceMs then ⟨r, .ok .noticed⟩
            else r.recoverLease step silentMs now fates

/-- The step as an external failure leaves it. -/
def failedExternally (step : Step) (reason : String) (now : Date) : Step :=
  let manual := step.retry_policy = .manual
  { step with
    status := if manual then .needs_recovery else .failed
    recovery_reason := if manual then reason ++ MANUAL_RECOVERY else ""
    result_summary := sliceText SUMMARY_MAX reason, finished_at := some now, lease_token := none }

def failStepExternally (r : Runner) (key : String) (reason : String) (now : Date)
    (fates : String → DispatchFate) : Outcome :=
  match r.stepOf key with
  | none => r.refused .notFound
  | some step =>
    if step.status.isTerminal ∨ r.mission.status.isTerminal then ⟨r, .ok .skipped⟩
    else
      ⟨((r.saveStep (failedExternally step reason now)).record [.ended step.step_key]).settle now
        fates, .ok .done⟩

/-- The give-up of the reaper, for the status its snapshot had. -/
def failMissionExternally (r : Runner) (expectedRunning : Bool) (reason : String) (now : Date) :
    Outcome :=
  let m := r.mission
  let expected : MissionStatus := if expectedRunning then .running else .planning
  if m.status ≠ expected ∨ (expectedRunning ∧ r.steps.any (·.status.isInFlight)) then
    ⟨r, .ok .skipped⟩
  else
    ⟨((r.cancelSteps (!·.status.isTerminal) now).saveMission
      { m with
        status := .failed, failure_reason := sliceText 2000 reason
        finished_at := some now }).record [.closed .giveUp], .ok .done⟩

end Runner

/-! ## Calls -/

inductive Action where
  | updateMission (patch : MissionPatch)
  | startMission (view : StartView)
  | pauseMission
  | resumeMission (fates : String → DispatchFate)
  | cancelMission (reason : String)
  | reopenMission (agent : Option OrchestrationCaller) (view : StartView)
  | completeMission (caller : OrchestrationCaller) (status : CompletionStatus) (summary : String)
  | updateCriteria (caller : OrchestrationCaller) (updates : List CriterionUpdate)
  | submitPlan (caller : OrchestrationCaller) (input : PlanInput) (fates : String → DispatchFate)
  | patchGraph (caller : OrchestrationCaller) (patch : GraphPatchInput)
      (fates : String → DispatchFate)
  | updateStep (key : String) (caller : OrchestrationCaller) (input : StepUpdate)
      (fates : String → DispatchFate)
  | reportProgress (key : String) (caller : OrchestrationCaller) (leaseToken : Option Nat)
      (checkpoint : Option String)
  | reportStep (key : String) (caller : OrchestrationCaller) (input : StepReport)
      (fates : String → DispatchFate)
  | submitConfirmDecision (key : String) (input : ConfirmInput) (fates : String → DispatchFate)
  | reconcileStaleLease (key : String) (graceMs timeoutMinutes : Int)
      (fates : String → DispatchFate)
  | failStepExternally (key : String) (reason : String) (fates : String → DispatchFate)
  | failMissionExternally (expectedRunning : Bool) (reason : String)
  | recoverPostActions
  | sweepPostActions
  | postStep (fate : LaunchFate)
  | crash

/-- Whether the call waits for the mission's lock. `updateMission` takes no lock. -/
def Action.locks : Action → Bool
  | updateMission _ => false
  | postStep _ => false
  | crash => false
  | _ => true

/-- A call at time `now`, from its first read to its last save. -/
def Action.run (now : Date) (r : Runner) : Action → Outcome
  | updateMission patch => r.settled (r.updateMission patch)
  | startMission view => r.startMission view now
  | pauseMission => r.settled r.pauseMission
  | resumeMission fates => r.settled (r.resumeMission now fates)
  | cancelMission reason => r.settled (r.cancelMission reason now)
  | reopenMission agent view => r.reopenMission agent view
  | completeMission caller status summary =>
    r.settled (r.completeMission caller status summary now)
  | updateCriteria caller updates => r.settled (r.updateCriteria caller updates)
  | submitPlan caller input fates => r.settled (r.submitPlan caller input now fates)
  | patchGraph caller patch fates => r.settled (r.patchGraph caller patch now fates)
  | updateStep key caller input fates => r.updateStep key caller input now fates
  | reportProgress key caller leaseToken checkpoint =>
    r.settled (r.reportProgress key caller leaseToken checkpoint now)
  | reportStep key caller input fates => r.settled (r.reportStep key caller input now fates)
  | submitConfirmDecision key input fates => r.submitConfirmDecision key input now fates
  | reconcileStaleLease key graceMs timeoutMinutes fates =>
    r.reconcileStaleLease key now graceMs timeoutMinutes fates
  | failStepExternally key reason fates => r.failStepExternally key reason now fates
  | failMissionExternally expectedRunning reason =>
    r.failMissionExternally expectedRunning reason now
  | recoverPostActions => ⟨r.recoverPostActions, .ok .done⟩
  | sweepPostActions => ⟨r.sweepPostActions, .ok .done⟩
  | postStep fate => ⟨r.postStep now fate, .ok .done⟩
  | crash => ⟨r.crash, .ok .done⟩

/-- The runs of one mission: it is created, and every call happens when the lock is free. -/
def missionSystem : Transition Runner (Date × Action) where
  init r := ∃ input, createMission input = some r
  step r call r' :=
    (call.2.locks = true → r.post = none) ∧ (call.2.run call.1 r).runner = r'

end WorkflowBoard.Orchestration
