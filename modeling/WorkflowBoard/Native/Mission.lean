import WorkflowBoard.Native.GraphTemplates
import WorkflowBoard.Native.JsDate
import WorkflowBoard.Native.MissionRoster

/-!
# Missions and their steps (`entities/OrchestrationMission.ts`, `entities/OrchestrationStep.ts`)

The rows of one mission as the operations of the runner load and save them. Every operation
holds the mission's lock, so between its load and its save nobody else writes them.

Steps are named by their `step_key`. A lease token is a number that is issued once, where
the source draws a random UUID; `none` is the empty token. What only prompts, rooms and
notices use (room of a step, runtime of an assignment, notice markers) is left out.

`Runner.log` is the history of the mission for the theorems to speak about; no operation
reads it.
-/

namespace WorkflowBoard.Orchestration

/-! ## Missions -/

inductive MissionStatus where
  | draft
  | planning
  | running
  | paused
  | completed
  | failed
  | cancelled
deriving DecidableEq

/-- `TERMINAL_MISSION_STATUSES`. -/
def MissionStatus.isTerminal (s : MissionStatus) : Bool := s ∈ [completed, failed, cancelled]

inductive PostActionCondition where
  | always
  | on_success
  | on_failure
deriving DecidableEq

inductive PostActionStatus where
  | pending
  | in_flight
  | dispatched
  | dispatch_failed
  | skipped
deriving DecidableEq

structure MissionPostAction where
  action_id : String
  order : Nat
  condition : PostActionCondition
  status : PostActionStatus
  run_id : Option Nat := none
  error : String := ""
  dispatched_at : Option Date := none
deriving DecidableEq

/-- One entry as a request gives it. -/
structure PostActionInput where
  action_id : String
  condition : Option PostActionCondition := none
deriving DecidableEq

/-- `normalizePostActions`: the entries with an action, numbered, all of them pending. -/
def normalizePostActions (input : List PostActionInput) : List MissionPostAction :=
  ((input.filter (trimText ·.action_id ≠ "")).zipIdx).map fun (raw, order) =>
    { action_id := trimText raw.action_id, order, condition := raw.condition.getD .always,
      status := .pending }

def postActionApplies (condition : PostActionCondition) (status : MissionStatus) : Bool :=
  match condition with
  | .always => true
  | .on_success => status = .completed
  | .on_failure => status = .failed

/-- `syncPostActionsPendingFlag`: whether some entry is not settled. -/
def anyUnsettled (list : List MissionPostAction) : Bool :=
  list.any fun pa => pa.status = .pending ∨ pa.status = .in_flight

structure MissionCompletionCriterion where
  key : String
  description : String
  isMet : Bool := false
  note : String := ""
deriving DecidableEq

/-- `normalizeCompletionCriteria`, or `none` where it names a problem. -/
def normalizeCompletionCriteria (input : List MissionCompletionCriterion) :
    Option (List MissionCompletionCriterion) :=
  let out := input.map fun raw =>
    { key := trimText raw.key, description := trimText raw.description, isMet := raw.isMet,
      note := sliceText 1000 raw.note : MissionCompletionCriterion }
  if out.all (fun c => isStepKey c.key ∧ c.description ≠ "") ∧ (out.map (·.key)).Nodup then
    some out
  else none

def allCriteriaMet (criteria : List MissionCompletionCriterion) : Bool := criteria.all (·.isMet)

structure Mission where
  status : MissionStatus := .draft
  projects : List ProjectName := []
  folder_scope : MemberFolderScope := .shared
  room_id : Option String := none
  orchestrator_agent_id : Option String := none
  orchestrator_spec : Option TeamAgentSpec := none
  runtime_roster : Option MissionRuntimeRoster := none
  max_parallel_steps : Nat := 1
  max_steps : Nat := 60
  max_plan_versions : Nat := 6
  plan_version : Nat := 0
  plan_summary : String := ""
  graph_enabled : Bool := false
  graph_spec : Option GraphSpec := none
  graph_revision : Nat := 0
  total_visits : Nat := 0
  confirm_policy : ConfirmPolicy := .auto
  completion_criteria : List MissionCompletionCriterion := []
  post_actions : List MissionPostAction := []
  post_actions_pending : Bool := false
  result_summary : String := ""
  failure_reason : String := ""
  started_at : Option Date := none
  finished_at : Option Date := none

/-! ## Steps -/

inductive StepRetryPolicy where
  | auto
  | manual
deriving DecidableEq

structure Artifact where
  kind : String
  ref : String
  label : String
deriving DecidableEq

inductive ConfirmVerdict where
  | pass
  | fail
deriving DecidableEq

def ConfirmVerdict.text : ConfirmVerdict → String
  | pass => "pass"
  | fail => "fail"

structure ConfirmDecision where
  verdict : ConfirmVerdict
  feedback : String
  decided_by_user_id : String
  decided_by_name : String
  decided_at : Date
  visit : Nat
deriving DecidableEq

structure Step where
  step_key : String
  title : String
  instructions : String
  acceptance_criteria : String
  depends_on : List String
  assignee_slot : Option String := none
  project_id : Option String := none
  assignee_agent_id : Option String := none
  status : StepStatus := .pending
  position : Nat
  plan_version : Nat
  attempt : Nat := 0
  max_attempts : Nat := 2
  retry_policy : StepRetryPolicy := .auto
  visit : Nat := 0
  lease_token : Option Nat := none
  verdict : String := ""
  result_summary : String := ""
  artifacts : List Artifact := []
  confirm_decision : Option ConfirmDecision := none
  auto_blocked : Bool := false
  recovery_reason : String := ""
  checkpoint : Option String := none
  dispatched_at : Option Date := none
  started_at : Option Date := none
  finished_at : Option Date := none
  last_heartbeat_at : Option Date := none
  lease_stale_since : Option Date := none
deriving DecidableEq

def Step.view (s : Step) : MissionStepStateView :=
  ⟨s.step_key, s.status, s.depends_on, s.visit, s.verdict⟩

def Step.nodeState (s : Step) : GraphNodeState := ⟨s.step_key, s.status, s.visit, s.verdict⟩

/-- An assignment as `assignmentFor` returns it; `Object.assign` copies it to the step. -/
structure Assignment where
  assignee_slot : String
  project_id : String
  assignee_agent_id : String
deriving DecidableEq

def Step.assign (s : Step) (a : Assignment) : Step :=
  { s with
    assignee_slot := some a.assignee_slot, project_id := some a.project_id,
    assignee_agent_id := some a.assignee_agent_id }

/-! ## The mission under its lock -/

/-- How a mission came to its end. -/
inductive EndedBy where
  | complete
  | cancel
  | giveUp
deriving DecidableEq

/-- What has happened to a mission. -/
inductive Effect where
  | dispatched (key : String) (lease visit : Nat)
  | ended (key : String)
  | redone (key : String)
  | declared (key : String)
  | added (key : String)
  | unblocked (key : String)
  | opened (key : String) (visit : Nat)
  | decided (key : String) (visit : Nat) (verdict : ConfirmVerdict)
  | routed (key : String)
  | closed (how : EndedBy)
  | reopened
  | listed
  | actionDispatched (order : Nat)
deriving DecidableEq

/-- A row of `action_runs` that a post-action left. -/
structure ActionRun where
  id : Nat
  action_id : String
  order : Nat

/-- Where the loop of `runPostActions` stands: at an entry, behind the save of it as
    `in_flight`, or behind the call of `dispatch` with the run it returned. -/
inductive PostPhase where
  | entry
  | launching
  | launched (run : Except String Nat)

/-- `runPostActions` while the lock is held for it: the list in memory and the position. -/
structure PostRun where
  list : List MissionPostAction
  index : Nat := 0
  phase : PostPhase := .entry

structure Runner where
  mission : Mission
  steps : List Step := []
  tokens : Nat := 0
  post : Option PostRun := none
  runs : List ActionRun := []
  log : List Effect := []

namespace Runner

def saveMission (r : Runner) (m : Mission) : Runner := { r with mission := m }

/-- `stepRepo.save(step)`. -/
def saveStep (r : Runner) (step : Step) : Runner :=
  { r with steps := r.steps.map fun s => if s.step_key = step.step_key then step else s }

/-- Save the steps that satisfy `p`, changed by `f`. -/
def saveSteps (r : Runner) (p : Step → Bool) (f : Step → Step) : Runner :=
  { r with steps := r.steps.map fun s => if p s then f s else s }

def record (r : Runner) (es : List Effect) : Runner := { r with log := r.log ++ es }

/-- `byKey.get(key)`. -/
def stepOf (r : Runner) (key : String) : Option Step := r.steps.find? (·.step_key = key)

section Fields

variable (r : Runner) (m : Mission) (s : Step) (p : Step → Bool) (f : Step → Step)
  (es : List Effect)

@[simp] theorem saveMission_mission : (r.saveMission m).mission = m := rfl
@[simp] theorem saveMission_log : (r.saveMission m).log = r.log := rfl
@[simp] theorem record_mission : (r.record es).mission = r.mission := rfl
@[simp] theorem record_log : (r.record es).log = r.log ++ es := rfl

end Fields

end Runner

end WorkflowBoard.Orchestration
