import Mathlib.Data.List.Sort
import WorkflowBoard.Native.Mission

/-!
# Dispatch of steps (`modules/orchestration/orchestration-runner.service.ts`)

The part of the runner every operation ends with: steps behind a failed one are blocked, a
finished step may send a loop of the graph back, and `pump` opens the gates and dispatches
the steps that may start, up to the limits of the mission and of its slots.

Delivering a work order reaches other hosts and may fail; `DispatchFate` says how far
`dispatchStep` gets. The prompts, the timeline, the wakes of the orchestrator and the lists
that only feed them are left out.
-/

namespace WorkflowBoard.Orchestration

/-- How a call of `dispatchStep` goes: it throws before the step is stamped, or when the work
    order is posted, or not at all. -/
inductive DispatchFate where
  | delivered
  | refused (error : String)
  | undelivered (error : String)

def MAX_ARTIFACTS_PER_STEP : Nat := 30

def SUMMARY_MAX : Nat := 8000

/-- `confirmNodeOf`: whether the step's node asks the user. -/
def isConfirmNode (m : Mission) (key : String) : Bool :=
  m.graph_spec.any fun spec => (nodeOf spec.nodes key).any (·.kind = .confirm)

/-- `remainingVisitBudget(mission) > 0`; a mission without a graph has no budget. -/
def hasVisitBudget (m : Mission) : Bool :=
  m.graph_spec.all fun spec => m.total_visits < spec.max_total_visits

def progressOf (m : Mission) (steps : List Step) : PlanProgress :=
  computeMissionProgress m.graph_spec (steps.map Step.view)

/-- What the slot limits count a step under: its slot, or its identity if it has none. -/
def loadKey (s : Step) : String :=
  match s.assignee_slot.filter (· ≠ "") with
  | some slot => slot
  | none =>
    match s.assignee_agent_id.filter (· ≠ "") with
    | some id => "identity:" ++ id
    | none => ""

/-- `capBySlot.get(slot) ?? 1`. -/
def slotCap (m : Mission) (slot : String) : Nat :=
  match (m.runtime_roster.map (·.members)).getD [] |>.reverse.find? (·.slot_id = slot) with
  | some member => member.max_concurrent
  | none => 1

/-- `loadBySlot` when the pump starts. -/
def loadBySlot (steps : List Step) (key : String) : Nat :=
  if key = "" then 0 else steps.countP fun s => s.status.isInFlight && loadKey s = key

/-! ## Blocked and re-entered steps -/

def AUTO_BLOCKED : String :=
  "[auto-blocked] an upstream step this work depends on did not succeed, so this step can never " ++
    "run as planned. The orchestrator must retry the upstream step or restructure the plan."

def Step.block (s : Step) (now : Date) : Step :=
  { s with
    status := .blocked, auto_blocked := true, finished_at := some now,
    result_summary := if s.result_summary = "" then AUTO_BLOCKED else s.result_summary }

def isAutoBlocked (s : Step) : Bool := s.status = .blocked && s.auto_blocked

def Step.unblock (s : Step) : Step :=
  { s with
    status := .pending, auto_blocked := false, finished_at := none,
    result_summary :=
      if "[auto-blocked]".toList.isPrefixOf s.result_summary.toList then "" else s.result_summary }

/-- The gate as it waits for the user. -/
def Step.openGate (s : Step) (artifacts : List Artifact) (now : Date) : Step :=
  { s with
    status := .awaiting_user, visit := max s.visit 1, dispatched_at := some now, started_at := none
    finished_at := none, confirm_decision := none, verdict := "", result_summary := "", artifacts }

/-- The step as it waits for another visit. -/
def Step.reenter (s : Step) : Step :=
  { s with
    status := .pending, visit := s.visit + 1, attempt := 0, verdict := "", result_summary := "",
    artifacts := [], dispatched_at := none, started_at := none, finished_at := none }

namespace Runner

/-! ## Gates -/

/-- The artifacts of the steps whose edges led to the gate, each once. -/
def gateEvidence (r : Runner) (key : String) : List Artifact :=
  match r.mission.graph_spec with
  | none => []
  | some spec =>
    let sources := spec.edges.filterMap fun e =>
      if e.target = key ∧ e.kind ≠ .loop_back then
        (r.stepOf e.source).filter fun s => evaluateEdge e (some s.nodeState) = .satisfied
      else none
    ((sources.flatMap (·.artifacts)).eraseDupsBy fun a b => a.kind = b.kind ∧ a.ref = b.ref).take
      MAX_ARTIFACTS_PER_STEP

def openConfirmGate (r : Runner) (step : Step) (now : Date) : Runner :=
  ((r.saveStep (step.openGate (r.gateEvidence step.step_key) now)).saveMission
    { r.mission with total_visits := r.mission.total_visits + 1 }).record
      [.opened step.step_key (max step.visit 1)]

/-! ## `dispatchStep` -/

/-- The step with a new attempt, and the lease token it is issued. -/
def stamped (r : Runner) (step : Step) (now : Date) : Step :=
  { step with
    attempt := step.attempt + 1, visit := max step.visit 1, lease_token := some r.tokens,
    status := .dispatched, dispatched_at := some now, started_at := none, finished_at := none,
    last_heartbeat_at := none, lease_stale_since := none, recovery_reason := "" }

/-- The saves of `dispatchStep`. -/
def stampDispatch (r : Runner) (step : Step) (now : Date) : Runner :=
  let total_visits := r.mission.total_visits + if r.mission.graph_spec.isSome then 1 else 0
  { (r.saveStep (r.stamped step now)).saveMission { r.mission with total_visits } with
    tokens := r.tokens + 1
    log := r.log ++ [.dispatched step.step_key r.tokens (max step.visit 1)] }

/-- The runner afterwards, the step in hand and the error if it throws. -/
def dispatchStep (r : Runner) (step : Step) (now : Date) (fate : DispatchFate) :
    Runner × Step × Option String :=
  match fate with
  | .delivered => (r.stampDispatch step now, r.stamped step now, none)
  | .refused error => (r, step, some error)
  | .undelivered error => (r.stampDispatch step now, r.stamped step now, some error)

/-- The step whose work order could not be delivered. -/
def undelivered (step : Step) (error : String) (now : Date) : Step :=
  { step with
    status := .failed, finished_at := some now,
    result_summary := "[dispatch failed] the work order could not be delivered to the assignee: " ++
      error }

/-- The pump's answer to a failed dispatch. -/
def failDispatch (r : Runner) (step : Step) (error : String) (now : Date) : Runner :=
  (r.saveStep (undelivered step error now)).record [.ended step.step_key]

/-! ## `pump` -/

def markReady (r : Runner) (step : Step) : Runner :=
  if step.status = .ready then r else r.saveStep { step with status := .ready }

/-- The gates, each as long as the budget has a visit left. -/
def pumpGates (now : Date) : List Step → Runner → Runner
  | [], r => r
  | step :: rest, r =>
    if hasVisitBudget r.mission then pumpGates now rest (r.openConfirmGate step now)
    else pumpGates now rest r

/-- The other candidates, with the parallel slots left and the load of each slot. -/
def pumpRegular (now : Date) (fates : String → DispatchFate) :
    List Step → Runner → Int → (String → Nat) → Runner
  | [], r, _, _ => r
  | step :: rest, r, slots, load =>
    if slots ≤ 0 ∨ !hasVisitBudget r.mission then r
    else if step.assignee_agent_id.all (· = "") then
      pumpRegular now fates rest (r.markReady step) slots load
    else if slotCap r.mission (step.assignee_slot.getD "") ≤ load (loadKey step) then
      pumpRegular now fates rest (r.markReady step) slots load
    else
      match r.dispatchStep step now (fates step.step_key) with
      | (r, _, none) =>
        pumpRegular now fates rest r (slots - 1)
          (Function.update load (loadKey step) (load (loadKey step) + 1))
      | (r, step, some error) =>
        pumpRegular now fates rest (r.failDispatch step error now) slots load

/-- The steps that may start, in the order of the plan. -/
def candidates (r : Runner) : List Step :=
  ((progressOf r.mission r.steps).dispatchable.filterMap r.stepOf).insertionSort
    fun a b => a.position ≤ b.position

def pump (r : Runner) (now : Date) (fates : String → DispatchFate) : Runner :=
  if r.mission.status ≠ .running then r
  else
    let gates := r.candidates.filter fun s => isConfirmNode r.mission s.step_key
    let regular := r.candidates.filter fun s => !isConfirmNode r.mission s.step_key
    let inFlight := (progressOf r.mission r.steps).inFlight.length
    let slots : Int := r.mission.max_parallel_steps - inFlight
    if slots ≤ 0 ∧ gates = [] then r
    else pumpRegular now fates regular (pumpGates now gates r) slots (loadBySlot r.steps)

/-! ## Blocking -/

/-- The steps behind a step that did not succeed. -/
def propagateBlocking (r : Runner) (now : Date) : Runner :=
  let newlyBlocked := (progressOf r.mission r.steps).newlyBlocked
  r.saveSteps (fun s => s.step_key ∈ newlyBlocked ∧ s.status ≠ .blocked) (·.block now)

/-- The auto-blocked steps that would not be blocked again if they were all pending. -/
def unblockAutoBlockedDependents (r : Runner) : Runner :=
  let hypothetical := r.steps.map fun s =>
    if isAutoBlocked s then { s with status := .pending } else s
  let stillBlocked := (progressOf r.mission hypothetical).newlyBlocked
  let restored := fun s => isAutoBlocked s && s.step_key ∉ stillBlocked
  (r.saveSteps restored Step.unblock).record
    ((r.steps.filter restored).map (.unblocked ·.step_key))

/-! ## Loops -/

/-- One loop that fired: its body goes back unless the visits of its target are used up. A
    step that another loop of this round sent back already stays as it is. -/
def reenterLoop (spec : GraphSpec) (acc : Runner × List String) (loop : GraphEdge) :
    Runner × List String :=
  match acc.1.stepOf loop.target, nodeOf spec.nodes loop.target with
  | some target, some node =>
    if node.max_visits < target.visit + 1 then acc
    else
      let body := (loopBodyNodes spec.edges loop).filter fun key =>
        key ∉ acc.2 ∧ (acc.1.stepOf key).isSome
      ((acc.1.saveSteps (·.step_key ∈ body) Step.reenter).record (body.map .ended),
        acc.2 ++ body)
  | _, _ => acc

/-- The loops the finished step fires. -/
def applyGraphTransitions (r : Runner) (step : Step) : Runner :=
  match r.mission.graph_spec with
  | none => r
  | some spec =>
    ((firedLoopBacks spec step.step_key step.nodeState).foldl (reenterLoop spec) (r, [])).1

/-- What follows the end of a step. -/
def settle (r : Runner) (now : Date) (fates : String → DispatchFate) : Runner :=
  (r.propagateBlocking now).pump now fates

end Runner

end WorkflowBoard.Orchestration
