import WorkflowBoard.Native.QaRuns

/-!
# Sequential batches (`modules/qa/qa-run.service.ts`, `qa-run-batch-reaper.service.ts`)

A batch runs its scenarios one after the other. The row of the batch has the index that is
under way and the results so far; the run that ends tallies its result, moves the index and
dispatches the next scenario (`onRunFinalized`). The dispatch (`_dispatchBatchIndex`) holds the
entity while it starts the run and saves it whole behind that. One dispatch of a batch is in
progress on the server at a time: another one that arrives is dropped. A batch without a run at
its index is dispatched again by a schedule or a sweep (`resumeWedgedBatch`).

Each statement on the batch and its runs is a step, and so is each entry of a dispatch. The
runs are numbered in the order of their insertion. Statements that fail, the filing of results
and the pruning of old runs are left out; so are the account and the trigger of the batch.
-/

namespace WorkflowBoard.Qa

inductive QaRunBatchStatus where
  | running
  | done
  | aborted
deriving DecidableEq

structure QaRunBatch where
  scenario_ids : List String
  /-- An index that was skipped is blank. -/
  run_ids : List (Option Nat) := []
  current_index : Nat := 0
  status : QaRunBatchStatus := .running
  stop_on_fail : Bool := false
  passed : Nat := 0
  failed : Nat := 0
  errored : Nat := 0
  finished_at : Option Date := none
deriving DecidableEq

namespace QaRunBatch

/-- `runIds[i]`. -/
def runAt (b : QaRunBatch) (i : Nat) : Option Nat := (b.run_ids[i]?).join

/-- `runIds[i] = id`; the array grows as far as it has to. -/
def setRunAt (b : QaRunBatch) (i : Nat) (id : Option Nat) : QaRunBatch :=
  { b with
    run_ids := (b.run_ids ++ List.replicate (i + 1 - b.run_ids.length) none).set i id }

/-- An index whose dispatch failed. -/
def skip (b : QaRunBatch) (i : Nat) : QaRunBatch :=
  { b.setRunAt i none with errored := b.errored + 1 }

/-- The result of a run counts. -/
def tally (b : QaRunBatch) (status : QaRunStatus) : QaRunBatch :=
  match status with
  | .passed => { b with passed := b.passed + 1 }
  | .failed => { b with failed := b.failed + 1 }
  | _ => { b with errored := b.errored + 1 }

/-- What `onRunFinalized` saves, and the index it dispatches behind that. -/
def finalize (b : QaRunBatch) (status : QaRunStatus) (now : Date) : QaRunBatch × Option Nat :=
  let t := b.tally status
  let nextIndex := t.current_index + 1
  if t.stop_on_fail ∧ status ≠ .passed then
    ({ t with status := .aborted, finished_at := some now }, none)
  else if t.scenario_ids.length ≤ nextIndex then
    ({ t with status := .done, finished_at := some now }, none)
  else ({ t with current_index := nextIndex }, some nextIndex)

/-- The batch when the dispatch has walked off its end. -/
def walkedOff (b : QaRunBatch) (now : Date) : QaRunBatch :=
  { b with
    current_index := b.scenario_ids.length - 1, status := .done, finished_at := some now }

/-- `save`: the row after the entity was written, where `reread` is what the save has read. -/
def save (entity reread row : QaRunBatch) : QaRunBatch where
  scenario_ids := saveColumn entity.scenario_ids reread.scenario_ids row.scenario_ids
  run_ids := saveColumn entity.run_ids reread.run_ids row.run_ids
  current_index := saveColumn entity.current_index reread.current_index row.current_index
  status := saveColumn entity.status reread.status row.status
  stop_on_fail := saveColumn entity.stop_on_fail reread.stop_on_fail row.stop_on_fail
  passed := saveColumn entity.passed reread.passed row.passed
  failed := saveColumn entity.failed reread.failed row.failed
  errored := saveColumn entity.errored reread.errored row.errored
  finished_at := saveColumn entity.finished_at reread.finished_at row.finished_at

/-- A row that the save has not found is inserted; one that is gone by then stays so. -/
def write (entity : QaRunBatch) (reread row : Option QaRunBatch) : Option QaRunBatch :=
  match reread with
  | some reread => row.map (entity.save reread)
  | none => some entity

/-- The index that `resumeWedgedBatch` dispatches again. -/
def wedgedAt (b : QaRunBatch) : Option Nat :=
  if b.status = .running ∧ b.runAt b.current_index = none then some b.current_index else none

end QaRunBatch

/-- A run of the batch, as far as the batch goes. -/
structure BatchRun where
  batch_index : Nat
  status : QaRunStatus

/-! ## Dispatches and calls -/

/-- How far the dispatch of a scenario gets: to the insertion of the run and then to the posting
    of its prompt, or not. -/
inductive StartFate where
  | goesOn
  | budget
  | fails

/-- Where the dispatch stands, with the entity it holds. -/
inductive BatchDispatch where
  /-- The loop is at index `i`. -/
  | starting (batch : QaRunBatch) (i : Nat) (throwOnBudget : Bool)
  /-- The run has been inserted. -/
  | sending (batch : QaRunBatch) (i : Nat) (throwOnBudget : Bool) (run : Nat)
  /-- The prompt could not be posted: the run is saved as an error, in two statements. -/
  | unsent (batch : QaRunBatch) (i : Nat) (throwOnBudget : Bool) (run : Nat)
      (reread : Option QaRunStatus)
  | selecting (batch : QaRunBatch)
  | saving (batch : QaRunBatch) (reread : Option QaRunBatch)
  | deleting
  /-- Nothing is left to do but to leave. -/
  | leaving

/-- Where another call stands. -/
inductive BatchCall where
  /-- A call is about to dispatch the index. -/
  | entering (batch : QaRunBatch) (index : Nat) (throwOnBudget : Bool)
  | resuming
  /-- The reaper has read a run that has not ended; it saves it in two statements. -/
  | reaping (run : Nat) (reread : Option QaRunStatus)
  /-- `completeRun` has written the result of the run. -/
  | completed (run : Nat)
  /-- `onRunFinalized` is about to read the batch. -/
  | finalising (run : Nat) (status : QaRunStatus)
  | selecting (batch : QaRunBatch) (next : Option Nat)
  | saving (batch : QaRunBatch) (next : Option Nat) (reread : Option QaRunBatch)
  | finished

structure BatchState where
  row : Option QaRunBatch
  runs : List BatchRun := []
  /-- The dispatch that `_inFlightBatchIds` stands for. -/
  dispatch : Option BatchDispatch := none
  calls : List BatchCall := []

namespace BatchState

def setCall (s : BatchState) (k : Nat) (c : BatchCall) : BatchState :=
  { s with calls := s.calls.set k c }

/-- The status of a run is written. -/
def setStatus (s : BatchState) (run : Nat) (status : QaRunStatus) : BatchState :=
  { s with runs := s.runs.modify run fun r => { r with status } }

/-- The next statement of the dispatch. -/
def dispatchNext (s : BatchState) (fate : StartFate) (now : Date) :
    BatchDispatch → Option BatchState
  | .starting batch i throwOnBudget =>
    if i < batch.scenario_ids.length then
      let batch := { batch with current_index := i }
      match fate with
      | .goesOn => some { s with
          runs := s.runs ++ [⟨i, .running⟩]
          dispatch := some (.sending batch i throwOnBudget s.runs.length) }
      | .budget => some { s with
          dispatch := some (if throwOnBudget then .deleting else .selecting batch) }
      | .fails => some { s with dispatch := some (.starting (batch.skip i) (i + 1) throwOnBudget) }
    else some { s with dispatch := some (.selecting (batch.walkedOff now)) }
  | .sending batch i throwOnBudget run =>
    match fate with
    | .goesOn => some { s with dispatch := some (.selecting (batch.setRunAt i (some run))) }
    | .fails => some { s with dispatch := some (.unsent batch i throwOnBudget run none) }
    | .budget => none
  | .unsent batch i throwOnBudget run none =>
    (s.runs[run]?).map fun r =>
      { s with dispatch := some (.unsent batch i throwOnBudget run (some r.status)) }
  | .unsent batch i throwOnBudget run (some reread) =>
    (s.runs[run]?).map fun r =>
      { s.setStatus run (saveColumn .error reread r.status) with
        dispatch := some (.starting (batch.skip i) (i + 1) throwOnBudget) }
  | .selecting batch => some { s with dispatch := some (.saving batch s.row) }
  | .saving batch reread => some { s with
      row := batch.write reread s.row, dispatch := some .leaving }
  | .deleting => some { s with row := none, dispatch := some .leaving }
  | .leaving => some { s with dispatch := none }

/-- The next statement of a call. A dispatch enters if none is in progress. -/
def callNext (s : BatchState) (now : Date) (k : Nat) : BatchCall → Option BatchState
  | .entering batch index throwOnBudget =>
    match s.dispatch with
    | some _ => some (s.setCall k .finished)
    | none => some { s.setCall k .finished with
        dispatch := some (.starting batch index throwOnBudget) }
  | .resuming =>
    match s.row with
    | some batch =>
      match batch.wedgedAt with
      | some index => some (s.setCall k (.entering batch index false))
      | none => some (s.setCall k .finished)
    | none => some (s.setCall k .finished)
  | .reaping run none =>
    (s.runs[run]?).map fun r => s.setCall k (.reaping run (some r.status))
  | .reaping run (some reread) =>
    (s.runs[run]?).map fun r =>
      (s.setStatus run (saveColumn .error reread r.status)).setCall k (.finalising run .error)
  | .completed run => (s.runs[run]?).map fun r => s.setCall k (.finalising run r.status)
  | .finalising run status =>
    match s.row, s.runs[run]? with
    | some batch, some r =>
      if batch.status = .running ∧ r.batch_index = batch.current_index then
        let (batch, next) := batch.finalize status now
        some (s.setCall k (.selecting batch next))
      else some (s.setCall k .finished)
    | _, _ => some (s.setCall k .finished)
  | .selecting batch next => some (s.setCall k (.saving batch next s.row))
  | .saving batch next reread =>
    some { s.setCall k (match next with
        | some index => .entering batch index false
        | none => .finished) with
      row := batch.write reread s.row }
  | .finished => none

end BatchState

inductive BatchAction where
  /-- `completeRun` writes a result, with any status it accepts. -/
  | complete (run : Nat) (status : QaRunStatus)
  /-- The reaper of runs finds a run that has not ended. -/
  | reap (run : Nat)
  | resumeWedgedBatch
  | dispatch (fate : StartFate) (now : Date)
  | call (now : Date) (k : Nat)

/-- One statement, if there is one. -/
def BatchAction.run (s : BatchState) : BatchAction → Option BatchState
  | complete run status =>
    (s.runs[run]?).map fun _ =>
      { s.setStatus run status with calls := s.calls ++ [.completed run] }
  | reap run =>
    (s.runs[run]?).bind fun r =>
      if r.status.isTerminal then none
      else some { s with calls := s.calls ++ [.reaping run none] }
  | resumeWedgedBatch =>
    if s.dispatch.isSome then none else some { s with calls := s.calls ++ [.resuming] }
  | dispatch fate now => s.dispatch.bind (s.dispatchNext fate now)
  | call now k => (s.calls[k]?).bind (s.callNext now k)

/-- The row as `startBatch` inserts it; there is a scenario to run. -/
def startBatch (scenario_ids : List String) (stop_on_fail : Bool) : QaRunBatch :=
  { scenario_ids, stop_on_fail }

/-- The runs of one batch, from the insertion of its row. -/
def batchSystem (stop_on_fail : Bool) : Transition BatchState BatchAction where
  init s := ∃ ids, ids ≠ [] ∧
    let batch := startBatch ids stop_on_fail
    s = { row := some batch, calls := [.entering batch 0 true] }
  step s a s' := a.run s = some s'

end WorkflowBoard.Qa
