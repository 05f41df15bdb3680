import WorkflowBoard.Native.MissionPump

/-!
# Plans and graph patches of a mission (`orchestration-runner.service.ts`)

`submitPlan` merges the submitted steps into the plan: the whole plan is validated and
ordered with the submitted texts, the steps that have started keep their rows, the others are
rewritten, new ones are added, and nothing is deleted. `patchGraph` edits the graph in place.

The texts of the runner's own refusals are left out; `Refusal` names the guard.
-/

namespace WorkflowBoard.Orchestration

/-! ## Refusals and callers -/

inductive Refusal where
  | unauthenticated
  | notOrchestrator
  | notAssignee
  | notFound
  | missionIs (status : MissionStatus)
  | stepIs (status : StepStatus)
  | planLimit
  | patchLimit
  | badPlan (error : String)
  | badGraph (error : String)
  | badAssignment
  | badRequest
  | attemptsUsed
  | staleLease
  | staleVisit
  | notConfirmNode
  | alreadyDecided
  | stepsInFlight
  | criteriaNotMet
  | teamUnfit
  | sharedFolder
  | notPrepared
  | notDelivered
deriving DecidableEq

/-- The agent session a call comes from. -/
structure OrchestrationCaller where
  agentId : String
  runtimeKey : Option String := none

/-- An empty id is nobody's. -/
def callerHoldsId (caller : OrchestrationCaller) (storedId : Option String) : Bool :=
  let id := trimText (storedId.getD "")
  id ≠ "" && (caller.agentId = id || caller.runtimeKey = some id)

def OrchestrationCaller.known (caller : OrchestrationCaller) : Bool :=
  caller.agentId ≠ "" || caller.runtimeKey.any (· ≠ "")

def requireOrchestrator (m : Mission) (caller : OrchestrationCaller) : Except Refusal Unit := do
  require caller.known .unauthenticated
  require (callerHoldsId caller m.orchestrator_agent_id) .notOrchestrator

def requireStepActor (step : Step) (m : Mission) (caller : OrchestrationCaller) :
    Except Refusal Unit := do
  require caller.known .unauthenticated
  require (callerHoldsId caller step.assignee_agent_id ||
    callerHoldsId caller m.orchestrator_agent_id) .notAssignee

/-! ## Assignments -/

/-- `assignmentFor`. -/
def assignmentFor (m : Mission) (assignee : String) (project : Option String) :
    Except Refusal Assignment := do
  let roster ← orThrow m.runtime_roster .badAssignment
  let (slot, runtime) ← orThrow (resolveStepAssignment roster m.projects assignee project)
    .badAssignment
  return ⟨slot.slot_id, runtime.project_id, runtime.agent_id⟩

/-- `missionProjectId`. -/
def missionProjectId (m : Mission) (value : String) : Except Refusal String :=
  orThrow (projectNamed m.projects (trimText value)) .badAssignment

/-- `planAssignee`: the first of the two fields that is not empty. -/
def planAssignee (assignee assignee_agent_id : Option String) : String :=
  trimText (((assignee.filter (· ≠ "")).or assignee_agent_id).getD "")

/-- What a request asks of a step's assignment. -/
inductive PlanAssignment where
  | keep
  | assign (a : Assignment)
  | project (id : String)
deriving DecidableEq

/-! ## `submitPlan` -/

/-- A step of a submission. -/
structure PlanStep extends PlanStepInput where
  acceptance_criteria : Option String := none
  assignee : Option String := none
  assignee_agent_id : Option String := none
  project : Option String := none
  retry_policy : Option StepRetryPolicy := none

structure PlanInput where
  summary : String := ""
  steps : List PlanStep
  graph : Option GraphSpecInput := none
  graph_template : Option (String × GraphTemplateParams) := none
  reset_graph : Bool := false

/-- A stored step as a step of the merged plan. -/
def Step.toPlan (s : Step) : PlanStep :=
  { step_key := s.step_key, title := s.title, instructions := some s.instructions
    depends_on := some s.depends_on, acceptance_criteria := some s.acceptance_criteria }

def PlanStep.key (s : PlanStep) : String := s.toPlanStepInput.key

def isSubmitted (input : PlanInput) (key : String) : Bool := input.steps.any (·.key = key)

/-- Whether a step has started or ended; a plan leaves its row as it is. -/
def Step.isUntouchable (s : Step) : Bool := s.status.isInFlight || s.status.isTerminal

namespace Runner

/-- `listSteps`: the rows in the order of the plan. -/
def listSteps (r : Runner) : List Step := r.steps.insertionSort fun a b => a.position ≤ b.position

/-- The plan that is validated: the steps that are not submitted again, then the submission. -/
def merged (r : Runner) (input : PlanInput) : List PlanStep :=
  ((r.listSteps.filter fun s => !isSubmitted input s.step_key).map (·.toPlan)) ++ input.steps

/-- The merged plan in the order `validatePlan` returns. -/
def validated (r : Runner) (input : PlanInput) : Except Refusal (List PlanStep) :=
  let merged := r.merged input
  match validatePlan (merged.map (·.toPlanStepInput)) r.mission.max_steps with
  | .error e => .error (.badPlan e)
  | .ok ordered => .ok (ordered.filterMap fun s => merged.find? (·.key = s.key))

/-- The graph of the new plan, and whether it replaces the old one. -/
def planGraph (r : Runner) (input : PlanInput) (plan : List PlanStep) :
    Except Refusal (Option GraphSpec × Bool) := do
  let m := r.mission
  let asks := input.graph.isSome || input.graph_template.isSome
  require (m.graph_enabled || !(asks || input.reset_graph)) .badRequest
  require (!(input.graph.isSome && input.graph_template.isSome)) .badRequest
  require (!(input.reset_graph && asks)) .badRequest
  if !m.graph_enabled then return (m.graph_spec, false)
  let nodeKeys := plan.map (·.key)
  let replace (spec : Except String GraphSpec) : Except Refusal (Option GraphSpec × Bool) :=
    match spec with
    | .error e => .error (.badGraph e)
    | .ok spec => .ok (some spec, true)
  match input.graph_template, input.graph, m.graph_spec, input.reset_graph with
  | some (name, params), _, _, _ =>
    replace (expandGraphTemplate name params nodeKeys m.confirm_policy)
  | none, some graph, _, _ => replace (validateGraphSpec graph nodeKeys m.confirm_policy)
  | none, none, some spec, false =>
    match carryGraphThroughReplan spec nodeKeys m.confirm_policy with
    | .error e => .error (.badGraph e)
    | .ok spec => .ok (some spec, false)
  | none, none, _, _ =>
    replace (graphFromWavePlan (plan.map fun s => ⟨s.key, s.depends_on.getD []⟩))

/-- What a submitted step asks of its assignment; resolved before anything is saved. -/
def planAssignment (r : Runner) (s : PlanStep) : Except Refusal PlanAssignment := do
  let assignee := planAssignee s.assignee s.assignee_agent_id
  let stored := (r.stepOf s.key).bind (·.project_id)
  if assignee ≠ "" then
    let a ← assignmentFor r.mission assignee ((s.project.filter (· ≠ "")).or stored)
    return .assign a
  else if trimText (s.project.getD "") ≠ "" then
    let id ← missionProjectId r.mission (s.project.getD "")
    return .project id
  else return .keep

/-- A row for a step the mission does not have yet. -/
def newStep (nextVersion : Nat) (s : PlanStep) (a : PlanAssignment) (index : Nat) : Step :=
  let step : Step :=
    { step_key := s.key, title := trimText s.title
      instructions := trimText (s.instructions.getD "")
      acceptance_criteria := trimText (s.acceptance_criteria.getD "")
      depends_on := s.deps, position := index, plan_version := nextVersion
      retry_policy := if s.retry_policy = some .manual then .manual else .auto }
  match a with
  | .keep => step
  | .assign a => step.assign a
  | .project id => { step with project_id := some id }

/-- The row of a step that is submitted again before it started. -/
def revisedStep (m : Mission) (nextVersion : Nat) (s : PlanStep) (a : PlanAssignment)
    (found : Step) : Except Refusal Step := do
  let step := { found with
    title := trimText s.title
    instructions := trimText (s.instructions.getD "")
    acceptance_criteria := trimText (s.acceptance_criteria.getD "")
    depends_on := s.deps, plan_version := nextVersion }
  match a with
  | .keep => return step
  | .assign a => return step.assign a
  | .project id =>
    match found.assignee_slot.filter (· ≠ "") with
    | some slot =>
      let a ← assignmentFor m slot (some id)
      return step.assign a
    | none => return { step with project_id := some id }

/-- The row of one step of the plan after the submission. -/
def plannedStep (r : Runner) (input : PlanInput) (s : PlanStep) (index : Nat) :
    Except Refusal Step := do
  let nextVersion := r.mission.plan_version + 1
  match r.stepOf s.key with
  | none =>
    let a ← r.planAssignment s
    return newStep nextVersion s a index
  | some found =>
    if isSubmitted input s.key ∧ !found.isUntouchable then
      let a ← r.planAssignment s
      revisedStep r.mission nextVersion s a { found with position := index }
    else return { found with position := index }

/-- The rows of the plan from an index on. -/
def plannedSteps (r : Runner) (input : PlanInput) : Nat → List PlanStep → Except Refusal (List Step)
  | _, [] => .ok []
  | index, s :: rest => do
    let step ← r.plannedStep input s index
    let steps ← r.plannedSteps input (index + 1) rest
    return step :: steps

/-- Save the rows of a plan: the stored ones by key, the new ones behind them. -/
def savePlan (r : Runner) (planned : List Step) : Runner :=
  { r with
    steps := (r.steps.map fun s => (planned.find? (·.step_key = s.step_key)).getD s) ++
      planned.filter fun s => (r.stepOf s.step_key).isNone }

/-- The keys of the new rows. -/
def addedKeys (r : Runner) (planned : List Step) : List String :=
  (planned.filter fun s => (r.stepOf s.step_key).isNone).map (·.step_key)

/-- The steps that are declared manual and have not started. -/
def declaredManual (r : Runner) (input : PlanInput) : List String :=
  (input.steps.filter fun s =>
    s.retry_policy = some .manual ∧ (r.stepOf s.key).all (!·.isUntouchable)).map (·.key)

/-- Everything up to the pump. -/
def acceptPlan (r : Runner) (caller : OrchestrationCaller) (input : PlanInput) :
    Except Refusal Runner := do
  let m := r.mission
  requireOrchestrator m caller
  require (m.status = .planning || m.status = .running) (.missionIs m.status)
  require (m.plan_version < m.max_plan_versions) .planLimit
  let plan ← r.validated input
  let (graph_spec, graphReplaced) ← r.planGraph input plan
  -- every assignment of the submission is resolved, also that of a step whose row stays
  input.steps.forM fun s => do
    let _ ← r.planAssignment s
  let planned ← r.plannedSteps input 0 plan
  let mission := { m with
    plan_version := m.plan_version + 1
    plan_summary := sliceText SUMMARY_MAX input.summary
    graph_revision := if graphReplaced then 0 else m.graph_revision
    graph_spec
    status := if m.status = .planning then .running else m.status }
  return ((r.savePlan planned).saveMission mission).record
    ((r.addedKeys planned).map .added ++ (r.declaredManual input).map .declared)

def submitPlan (r : Runner) (caller : OrchestrationCaller) (input : PlanInput) (now : Date)
    (fates : String → DispatchFate) : Except Refusal Runner := do
  let r ← r.acceptPlan caller input
  return r.pump now fates

/-! ## `patchGraph` -/

/-- Everything up to the pump. -/
def acceptPatch (r : Runner) (caller : OrchestrationCaller) (patch : GraphPatchInput) :
    Except Refusal Runner := do
  let m := r.mission
  requireOrchestrator m caller
  require (m.status = .planning || m.status = .running) (.missionIs m.status)
  require m.graph_enabled .badRequest
  let spec ← orThrow m.graph_spec .badRequest
  require (m.graph_revision < MAX_GRAPH_PATCHES) .patchLimit
  let nodeKeys := r.listSteps.map (·.step_key)
  match applyGraphPatch spec patch nodeKeys ⟨r.steps.map (·.nodeState), m.total_visits⟩
      m.confirm_policy with
  | .error e => .error (.badGraph e)
  | .ok (spec, _) =>
    return r.saveMission { m with graph_spec := some spec, graph_revision := m.graph_revision + 1 }

def patchGraph (r : Runner) (caller : OrchestrationCaller) (patch : GraphPatchInput) (now : Date)
    (fates : String → DispatchFate) : Except Refusal Runner := do
  let r ← r.acceptPatch caller patch
  return r.pump now fates

end Runner

end WorkflowBoard.Orchestration
