import Mathlib.Data.List.Sort
import Mathlib.Data.Rat.Defs
import WorkflowBoard.ForStd.RowSave
import WorkflowBoard.ForStd.Transition
import WorkflowBoard.Native.JsDate
import WorkflowBoard.Native.JsString

/-!
# One QA run (`modules/qa/qa-run.service.ts`, `qa-run-reaper.service.ts`)

The calls on the row of one run: the results its agent reports, its completion, the reaper's
verdict and that of a dispatch that failed, with the filing of a failure ticket that each
verdict leads to (`qa-failure-ticket.service.ts`). Each statement is a step. `save` reads the
row again and writes those of its columns in which the entity differs; `update` writes them all.

The texts of the summary, the build's commit, the delivery of the result and the batch of the
run are left out. Evidence of a visual driver and the tickets that the scenario has open are
given to the step that asks for them.
-/

namespace WorkflowBoard.Qa

inductive QaRunStatus where
  | pending
  | running
  | passed
  | failed
  | error
  | build_failed
deriving DecidableEq

/-- `TERMINAL_QA_RUN_STATUSES`. -/
def QaRunStatus.isTerminal (s : QaRunStatus) : Bool := s ∈ [.passed, .failed, .error, .build_failed]

def isQaFailure (s : QaRunStatus) : Bool := s ∈ [.failed, .error, .build_failed]

inductive QaStepStatus where
  | pending
  | passed
  | failed
  | skipped
deriving DecidableEq

structure QaStepResult where
  idx : Int
  status : QaStepStatus
  log : String := ""
  artifact_resource_ids : List String := []
deriving DecidableEq

structure QaPhaseHistoryEntry where
  phase : String
  entered_at : Date
  left_at : Option Date
deriving DecidableEq

structure QaRun where
  status : QaRunStatus := .running
  step_results : List QaStepResult := []
  artifact_resource_ids : List String := []
  liveness_token : Option Rat := none
  liveness_token_at : Option Date := none
  current_phase : Option String := none
  current_phase_at : Option Date := none
  phase_history : List QaPhaseHistoryEntry := []
  auto_ticket_id : Option Nat := none
  finished_at : Option Date := none
deriving DecidableEq

/-- The row `startQaRun` inserts. -/
def startQaRun (initialPhase : String) (now : Date) : QaRun :=
  if initialPhase = "" then {}
  else { current_phase := some initialPhase, current_phase_at := some now
         phase_history := [⟨initialPhase, now, none⟩] }

/-! ## What a call makes of the run it has read -/

/-- The entry takes the place of the first one with its index, or comes last. -/
def putStep (entry : QaStepResult) : List QaStepResult → List QaStepResult
  | [] => [entry]
  | r :: rs => if r.idx = entry.idx then entry :: rs else r :: putStep entry rs

/-- The union, in the order of insertion. -/
def addArtifacts (ids add : List String) : List String :=
  if add = [] then ids else (ids ++ add).eraseDups

def withStep (run : QaRun) (entry : QaStepResult) : QaRun :=
  { run with
    step_results :=
      (putStep entry run.step_results).insertionSort fun a b => a.idx ≤ b.idx
    artifact_resource_ids := addArtifacts run.artifact_resource_ids entry.artifact_resource_ids }

def withArtifacts (run : QaRun) (ids : List String) : QaRun :=
  { run with artifact_resource_ids := addArtifacts run.artifact_resource_ids ids }

/-- A token that is not above the last one changes nothing. -/
def withHeartbeat (run : QaRun) (token : Rat) (now : Date) : QaRun :=
  if run.liveness_token.all (· < token) then
    { run with liveness_token := some token, liveness_token_at := some now }
  else run

/-- The last phase is closed where it is open. -/
def closePhase (history : List QaPhaseHistoryEntry) (now : Date) : List QaPhaseHistoryEntry :=
  match history.getLast? with
  | some last =>
    if last.left_at = none then history.dropLast ++ [{ last with left_at := some now }]
    else history
  | none => history

def withPhase (run : QaRun) (phase : String) (now : Date) : QaRun :=
  { run with
    current_phase := some phase, current_phase_at := some now
    phase_history := closePhase run.phase_history now ++ [⟨phase, now, none⟩] }

/-- `_stepGate`. -/
def stepGate (run : QaRun) : Bool :=
  run.step_results.all fun s => s.status ≠ .failed ∧ s.status ≠ .pending

/-- The verdict `completeRun` writes. -/
def finalStatus (run : QaRun) (status : QaRunStatus) (evidence : Bool) : QaRunStatus :=
  if status = .passed ∧ ¬(stepGate run ∧ evidence) then .failed else status

/-! ## Calls -/

/-- The columns of a call that saves. -/
inductive RunOp where
  | recordStep (entry : QaStepResult)
  | attachArtifact (ids : List String)
  | recordHeartbeat (token : Rat)
  | setPhase (phase : String)
  /-- The sweep of the reaper, and `startQaRun` where the prompt cannot be sent. -/
  | verdict
deriving DecidableEq

/-- The input of a call as it is used: without blank ids and with the phase trimmed; a blank phase
    is refused. -/
def RunOp.normalize : RunOp → Option RunOp
  | recordStep entry => some (recordStep { entry with
      artifact_resource_ids := entry.artifact_resource_ids.filter (· ≠ "") })
  | attachArtifact ids => some (attachArtifact (ids.filter (· ≠ "")))
  | setPhase phase => if trimText phase = "" then none else some (setPhase (trimText phase))
  | op => some op

/-- Steps and artifacts are recorded whatever the status of the run. -/
def RunOp.needsOpenRun : RunOp → Bool
  | recordStep _ => false
  | attachArtifact _ => false
  | _ => true

/-- What the call saves, of the run it has read. -/
def RunOp.apply (op : RunOp) (run : QaRun) (now : Date) : QaRun :=
  match op with
  | recordStep entry => withStep run entry
  | attachArtifact ids => withArtifacts run ids
  | recordHeartbeat token => withHeartbeat run token now
  | setPhase phase => withPhase run phase now
  | verdict => { run with status := .error, finished_at := some now }

/-- The row after the columns of the call were saved. -/
def RunOp.save (op : RunOp) (entity reread row : QaRun) : QaRun :=
  match op with
  | recordStep _ => { row with
      step_results := saveColumn entity.step_results reread.step_results row.step_results
      artifact_resource_ids := saveColumn entity.artifact_resource_ids
        reread.artifact_resource_ids row.artifact_resource_ids }
  | attachArtifact _ => { row with
      artifact_resource_ids := saveColumn entity.artifact_resource_ids
        reread.artifact_resource_ids row.artifact_resource_ids }
  | recordHeartbeat _ => { row with
      liveness_token := saveColumn entity.liveness_token reread.liveness_token row.liveness_token
      liveness_token_at :=
        saveColumn entity.liveness_token_at reread.liveness_token_at row.liveness_token_at }
  | setPhase _ => { row with
      current_phase := saveColumn entity.current_phase reread.current_phase row.current_phase
      current_phase_at :=
        saveColumn entity.current_phase_at reread.current_phase_at row.current_phase_at
      phase_history := saveColumn entity.phase_history reread.phase_history row.phase_history }
  | verdict => { row with
      status := saveColumn entity.status reread.status row.status
      finished_at := saveColumn entity.finished_at reread.finished_at row.finished_at }

/-- Where a call stands. `run` is the run it has in hand. -/
inductive RunPhase where
  /-- A save goes to read the row, then to write: `read` is the run as the call read it. -/
  | selecting (op : RunOp) (read run : QaRun)
  | saving (op : RunOp) (read run reread : QaRun)
  /-- `completeRun` goes to write its verdict, then to read the run again. -/
  | updating (read : QaRun) (status : QaRunStatus) (finished_at : Date)
  | reloading
  /-- `processRunResult`. -/
  | processing (run : QaRun)
  | filing
  | stamping (ticket : Nat)
  | finished
deriving DecidableEq

/-- What was accepted, and the tickets that were created for the run. -/
structure RunHistory where
  steps : List QaStepResult := []
  artifacts : List String := []
  tokens : List Rat := []
  phases : List String := []
  tickets : List Nat := []

/-- The history behind a save. -/
def RunOp.note (op : RunOp) (h : RunHistory) : RunHistory :=
  match op with
  | recordStep entry => { h with
      steps := h.steps ++ [entry], artifacts := h.artifacts ++ entry.artifact_resource_ids }
  | attachArtifact ids => { h with artifacts := h.artifacts ++ ids }
  | recordHeartbeat token => { h with tokens := h.tokens ++ [token] }
  | setPhase phase => { h with phases := h.phases ++ [phase] }
  | verdict => h

structure RunState where
  row : QaRun
  /-- The run as it was inserted: what `startQaRun` has in hand. -/
  inserted : QaRun
  calls : List RunPhase := []
  history : RunHistory := {}

namespace RunState

def open_ (s : RunState) (phase : RunPhase) : RunState := { s with calls := s.calls ++ [phase] }

def setCall (s : RunState) (k : Nat) (phase : RunPhase) : RunState :=
  { s with calls := s.calls.set k phase }

/-- A call reads the run; heartbeats and phases are refused on a run that has ended, and the
    reaper leaves it alone. -/
def read (s : RunState) (input : RunOp) (now : Date) : Option RunState := do
  let op ← input.normalize
  if op.needsOpenRun && s.row.status.isTerminal then none
  else some (s.open_ (.selecting op s.row (op.apply s.row now)))

/-- `startQaRun` fails with the run it has inserted. -/
def dispatchFails (s : RunState) (now : Date) : RunState :=
  s.open_ (.selecting .verdict s.inserted (RunOp.apply .verdict s.inserted now))

/-- The checks of `completeRun`. -/
def complete (s : RunState) (status : QaRunStatus) (evidence : Bool) (now : Date) : RunState :=
  s.open_ (.updating s.row (finalStatus s.row status evidence) now)

/-- The next statement of a call; `enabled` tells whether the scenario files tickets, and
    `existing` which of its tickets is open. -/
def next (s : RunState) (enabled : Bool) (existing : Option Nat) (k : Nat) :
    RunPhase → Option RunState
  | .selecting op read run => some (s.setCall k (.saving op read run s.row))
  | .saving op _ run reread =>
    some { s.setCall k (if op = .verdict then .processing run else .finished) with
      row := op.save run reread s.row, history := op.note s.history }
  | .updating _ status finished_at =>
    some { s.setCall k .reloading with
      row := { s.row with status, finished_at := some finished_at } }
  | .reloading => some (s.setCall k (.processing s.row))
  | .processing run =>
    if !isQaFailure run.status ∨ !enabled ∨ run.auto_ticket_id.isSome then
      some (s.setCall k .finished)
    else some (s.setCall k (match existing with
      | some ticket => .stamping ticket
      | none => .filing))
  | .filing =>
    let ticket := s.history.tickets.length
    some { s.setCall k (.stamping ticket) with
      history := { s.history with tickets := s.history.tickets ++ [ticket] } }
  | .stamping ticket =>
    some { s.setCall k .finished with row := { s.row with auto_ticket_id := some ticket } }
  | .finished => none

end RunState

inductive RunAction where
  | read (op : RunOp) (now : Date)
  | dispatchFails (now : Date)
  | complete (status : QaRunStatus) (evidence : Bool) (now : Date)
  | next (enabled : Bool) (existing : Option Nat) (k : Nat)
  /-- A call throws. -/
  | throws (k : Nat)

def RunAction.run (s : RunState) : RunAction → Option RunState
  | read op now => s.read op now
  | dispatchFails now => some (s.dispatchFails now)
  | complete status evidence now => some (s.complete status evidence now)
  | next enabled existing k => (s.calls[k]?).bind (s.next enabled existing k)
  | throws k => (s.calls[k]?).map fun _ => s.setCall k .finished

/-- The runs of the calls on one QA run. -/
def runSystem : Transition RunState RunAction where
  init s := ∃ initialPhase now, s.row = startQaRun initialPhase now ∧ s.inserted = s.row ∧
    s.calls = [] ∧ s.history = { phases := s.row.phase_history.map (·.phase) }
  step s a s' := a.run s = some s'

end WorkflowBoard.Qa
