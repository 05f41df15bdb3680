import WorkflowBoard.ForStd.Except
import WorkflowBoard.ForStd.Kahn
import WorkflowBoard.Native.JsString

/-!
# Plans of a mission (`modules/orchestration/orchestration.constants.ts`)

A plan is a list of steps with keys and dependencies. `validatePlan` accepts it if the keys
are well formed and distinct, the dependencies name steps of the plan and there is no cycle,
and returns the steps dependency first. `computePlanProgress` sorts the steps into buckets
by their status and the statuses of their dependencies.
-/

namespace WorkflowBoard.Orchestration

inductive StepStatus where
  | pending
  | ready
  | dispatched
  | running
  | done
  | failed
  | blocked
  | skipped
  | cancelled
  | needs_recovery
  | awaiting_user
deriving DecidableEq

namespace StepStatus

/-- `IN_FLIGHT_STEP_STATUSES`. -/
def isInFlight (s : StepStatus) : Bool := s ∈ [dispatched, running]

/-- `TERMINAL_STEP_STATUSES`. -/
def isTerminal (s : StepStatus) : Bool :=
  s ∈ [done, failed, blocked, skipped, cancelled, needs_recovery]

def isAwaitingUser (s : StepStatus) : Bool := s = awaiting_user

/-- `DEPENDENCY_SATISFYING_STATUSES`. -/
def satisfies (s : StepStatus) : Bool := s ∈ [done, skipped]

/-- `DEPENDENCY_POISONING_STATUSES`. -/
def poisons (s : StepStatus) : Bool := s ∈ [failed, blocked, cancelled, needs_recovery]

end StepStatus

/-! ## `validatePlan` -/

structure PlanStepInput where
  step_key : String
  title : String
  instructions : Option String := none
  depends_on : Option (List String) := none
deriving DecidableEq

def instructionsMax : Nat := 8000

def PlanStepInput.key (s : PlanStepInput) : String := trimText s.step_key

/-- The dependencies, trimmed, without empty ones and each once. -/
def PlanStepInput.deps (s : PlanStepInput) : List String :=
  (((s.depends_on.getD []).map trimText).filter (· ≠ "")).eraseDups

/-- `STEP_KEY_PATTERN`, `/^[a-z0-9][a-z0-9._-]{0,47}$/`. -/
def isStepKey (key : String) : Bool :=
  match key.toList with
  | [] => false
  | c :: cs => alnum c && cs.length ≤ 47 && cs.all fun c => alnum c || c ∈ ['.', '_', '-']
where
  alnum (c : Char) : Bool := ('a' ≤ c && c ≤ 'z') || ('0' ≤ c && c ≤ '9')

/-- The checks of one step, given the keys before it. -/
def checkStep (seen : List String) (s : PlanStepInput) : Except String Unit := do
  let raw := s.step_key
  let key := s.key
  require (isStepKey key)
    (s!"invalid step_key \"{raw}\" — use lowercase letters, digits, '.', '_' or '-' " ++
      "(max 48 chars, must start alphanumeric)")
  require (key ∉ seen) s!"duplicate step_key \"{key}\""
  require (trimText s.title ≠ "") s!"step \"{key}\" has no title"
  require (utf16Length (s.instructions.getD "") ≤ instructionsMax)
    s!"step \"{key}\" instructions exceed {instructionsMax} characters"

/-- The first loop: the keys of the steps in order. -/
def checkSteps : List String → List PlanStepInput → Except String (List String)
  | seen, [] => .ok seen
  | seen, s :: rest => do
    checkStep seen s
    checkSteps (seen ++ [s.key]) rest

/-- One dependency of the step `key`. -/
def checkDep (seen : List String) (key d : String) : Except String Unit := do
  require (d ≠ key) s!"step \"{key}\" depends on itself"
  require (d ∈ seen) s!"step \"{key}\" depends on unknown step \"{d}\""

def checkDeps (seen : List String) (s : PlanStepInput) : Except String Unit :=
  s.deps.forM (checkDep seen s.key)

/-- The step of a key; the keys are distinct when it is used. -/
def stepOf (steps : List PlanStepInput) (key : String) : Option PlanStepInput :=
  steps.find? (·.key = key)

/-- The dependencies of a key. -/
def depsOf (steps : List PlanStepInput) (key : String) : List String :=
  match stepOf steps key with
  | some s => s.deps
  | none => []

def validatePlan (steps : List PlanStepInput) (maxSteps : Nat) :
    Except String (List PlanStepInput) := do
  let count := steps.length
  require (steps ≠ []) "plan must contain at least one step"
  require (count ≤ maxSteps) s!"plan has {count} steps, exceeding the mission limit of {maxSteps}"
  let seen ← checkSteps [] steps
  steps.forM (checkDeps seen)
  let ordered := (Kahn.sort seen (depsOf steps)).filterMap (stepOf steps)
  let stuck := ", ".intercalate (seen.filter fun k => !ordered.any (·.key = k))
  require (ordered.length = steps.length)
    (s!"plan contains a dependency cycle involving: {stuck}. " ++
      "Every step must be reachable from a step with no dependencies.")
  return ordered

/-! ## `computePlanProgress` -/

structure StepStateView where
  step_key : String
  status : StepStatus
  depends_on : Option (List String)

/-- The lists of `PlanProgress`. -/
inductive Bucket where
  | dispatchable
  | waiting
  | newlyBlocked
  | inFlight
  | awaitingUser
  | done
  | failed
deriving DecidableEq

structure PlanProgress where
  dispatchable : List String
  waiting : List String
  newlyBlocked : List String
  inFlight : List String
  awaitingUser : List String
  done : List String
  failed : List String
  allTerminal : Bool

/-- `byKey.get(d)`: a `Map` built from the steps keeps the last one of a key. -/
def dependency (steps : List StepStateView) (d : String) : Option StepStateView :=
  steps.reverse.find? (·.step_key = d)

/-- The body of the loop: the list a step is pushed to. A dependency that is not in the plan
    counts as satisfied. -/
def bucketOf (steps : List StepStateView) (s : StepStateView) : Bucket :=
  let deps := (s.depends_on.getD []).filterMap (dependency steps)
  if s.status.isInFlight then .inFlight
  else if s.status.isAwaitingUser then .awaitingUser
  else if s.status = .done ∨ s.status = .skipped then .done
  else if s.status = .failed ∨ s.status = .blocked ∨ s.status = .cancelled ∨
      s.status = .needs_recovery then .failed
  else if deps.any (·.status.poisons) then .newlyBlocked
  else if deps.any (!·.status.satisfies) then .waiting
  else .dispatchable

/-- The keys of one list, in the order of the steps. -/
def keysIn (steps : List StepStateView) (b : Bucket) : List String :=
  (steps.filter (bucketOf steps · = b)).map (·.step_key)

def computePlanProgress (steps : List StepStateView) : PlanProgress where
  dispatchable := keysIn steps .dispatchable
  waiting := keysIn steps .waiting
  newlyBlocked := keysIn steps .newlyBlocked
  inFlight := keysIn steps .inFlight
  awaitingUser := keysIn steps .awaitingUser
  done := keysIn steps .done
  failed := keysIn steps .failed
  allTerminal := steps.all fun s => bucketOf steps s ∈ [.done, .failed]

/-- The rows the runner keeps for the steps of a plan, with a status for each key. -/
def planView (steps : List PlanStepInput) (status : String → StepStatus) : List StepStateView :=
  steps.map fun s => ⟨s.key, status s.key, some s.deps⟩

/-- The runner marks the newly blocked steps. -/
def markBlocked (steps : List PlanStepInput) (status : String → StepStatus) :
    String → StepStatus :=
  let blocked := (computePlanProgress (planView steps status)).newlyBlocked
  fun key => if key ∈ blocked then .blocked else status key

end WorkflowBoard.Orchestration
