import Mathlib.Data.List.Sort
import WorkflowBoard.ForStd.RowSave
import WorkflowBoard.ForStd.Transition
import WorkflowBoard.Native.QaCron

/-!
# QA schedules (`modules/qa/qa-schedule.service.ts`)

`runOnce`, `runNow` and `update`, one database statement at a time. A call is its arguments
and the phase it is in, and holds the rows it loaded; `advance` runs the next statement of
one call. A save is two statements, the second read of the row and the write of the columns
that differ from it.

What comes from other services is part of the step: whether the instance is quiesced, the
state of a previous batch, the batch a dispatch started (or that it failed), and whether the
project of an update exists.
-/

namespace WorkflowBoard.Qa

inductive QaScheduleScope where
  | all
  | selected
deriving DecidableEq

structure QaSchedule where
  id : String
  account_id : String := ""
  project_id : Option String := none
  name : String := ""
  scope : QaScheduleScope := .all
  scenario_ids : Option (List String) := none
  cron : Option String := none
  interval_ms : Option Int := none
  enabled : Bool := true
  stop_on_fail : Bool := false
  next_run_at : Option Date := none
  last_run_at : Option Date := none
  last_batch_id : Option String := none
  triggered_by_type : String := "user"

def tickBatch : Nat := 100

def minIntervalMs : Int := 1000

/-- The next firing instant (`none` when disabled or without cadence). -/
def computeNextRun (schedule : QaSchedule) (start : Date) : Except String (Option Date) :=
  if !schedule.enabled then .ok none else
  match schedule.cron with
  | some cron =>
    if cron ≠ "" then nextCronAfter cron start else .ok (interval schedule start)
  | none => .ok (interval schedule start)
where
  interval (schedule : QaSchedule) (start : Date) : Option Date :=
    (schedule.interval_ms.filter (0 < ·)).map fun (ms : Int) => (start + ms : Int)

/-- The write of a save: the columns in which the entity differs from the row as it was read
    again. -/
def QaSchedule.save (entity reread row : QaSchedule) : QaSchedule where
  id := row.id
  account_id := saveColumn entity.account_id reread.account_id row.account_id
  project_id := saveColumn entity.project_id reread.project_id row.project_id
  name := saveColumn entity.name reread.name row.name
  scope := saveColumn entity.scope reread.scope row.scope
  scenario_ids := saveColumn entity.scenario_ids reread.scenario_ids row.scenario_ids
  cron := saveColumn entity.cron reread.cron row.cron
  interval_ms := saveColumn entity.interval_ms reread.interval_ms row.interval_ms
  enabled := saveColumn entity.enabled reread.enabled row.enabled
  stop_on_fail := saveColumn entity.stop_on_fail reread.stop_on_fail row.stop_on_fail
  next_run_at := saveColumn entity.next_run_at reread.next_run_at row.next_run_at
  last_run_at := saveColumn entity.last_run_at reread.last_run_at row.last_run_at
  last_batch_id := saveColumn entity.last_batch_id reread.last_batch_id row.last_batch_id
  triggered_by_type :=
    saveColumn entity.triggered_by_type reread.triggered_by_type row.triggered_by_type

/-! ## The table -/

abbrev ScheduleDb := List QaSchedule

namespace ScheduleDb

def row? (db : ScheduleDb) (id : String) : Option QaSchedule := db.find? (·.id = id)

/-- `findOrFail({ id, account_id })`. -/
def get (db : ScheduleDb) (id accountId : String) : Except String QaSchedule :=
  if accountId = "" then .error "account_id is required" else
  match db.find? fun s => s.id = id ∧ s.account_id = accountId with
  | some s => .ok s
  | none => .error "QA schedule not found in account"

def write (db : ScheduleDb) (entity reread : QaSchedule) : ScheduleDb :=
  db.map fun row => if row.id = entity.id then entity.save reread row else row

theorem map_id_write (db : ScheduleDb) (e r : QaSchedule) :
    (db.write e r).map (·.id) = db.map (·.id) := by
  unfold write
  rw [List.map_map]
  apply List.map_congr_left
  intro row _
  show QaSchedule.id (if row.id = e.id then e.save r row else row) = row.id
  split <;> rfl

/-- Enabled schedules without a cursor. -/
def orphans (db : ScheduleDb) : List QaSchedule :=
  db.filter fun s => s.enabled && s.next_run_at.isNone

def isDue (now : Date) (s : QaSchedule) : Bool :=
  s.enabled && s.next_run_at.any (· ≤ now)

/-- The due schedules, the earliest first, at most `TICK_BATCH` of them. -/
def due (db : ScheduleDb) (now : Date) : List QaSchedule :=
  ((db.filter (isDue now)).insertionSort fun a b =>
    a.next_run_at.getD 0 ≤ b.next_run_at.getD 0).take tickBatch

end ScheduleDb

/-! ## `runOnce` -/

/-- What a sweep finds when it looks at the previous batch of a schedule. -/
inductive PrevBatch where
  | idle
  | running
  | wedged
deriving DecidableEq

/-- Where a sweep is. `rest` are the schedules of the loop that it has not come to. -/
inductive SweepPhase where
  | start
  | findOrphans
  | healing (rest : List QaSchedule)
  | healWrite (entity reread : QaSchedule) (rest : List QaSchedule)
  | findDue
  | taking (rest : List QaSchedule)
  | takeWrite (entity reread : QaSchedule) (dueAt : Date) (rest : List QaSchedule)
  | checking (entity : QaSchedule) (dueAt : Date) (rest : List QaSchedule)
  | dispatching (entity : QaSchedule) (rest : List QaSchedule)
  | stampWrite (entity reread : QaSchedule) (rest : List QaSchedule)
  | returned

/-! ## `update` -/

/-- The patch of an update; `none` for a key that was not sent. -/
structure UpdateScheduleInput where
  projectId : Option (Option String) := none
  name : Option String := none
  scope : Option QaScheduleScope := none
  scenarioIds : Option (Option (List String)) := none
  cron : Option (Option String) := none
  intervalMs : Option (Option Int) := none
  enabled : Option Bool := none
  stopOnFail : Option Bool := none
  triggeredByType : Option String := none

def validateScope (scope : QaScheduleScope) (scenarioIds : Option (List String)) :
    Except String (Option (List String)) :=
  match scope with
  | .selected =>
    let ids := (scenarioIds.getD []).filter (· ≠ "")
    if ids = [] then .error "scope='selected' requires a non-empty scenario_ids list"
    else .ok (some ids)
  | .all => .ok none

def validateCadence (cron : Option String) (intervalMs : Option Int) :
    Except String (Option String × Option Int) :=
  let hasCron := cron.any (trimText · ≠ "")
  let hasInterval := intervalMs.any (0 < ·)
  if hasCron ∧ hasInterval then .error "set exactly one of cron or interval_ms, not both"
  else if !hasCron ∧ !hasInterval then .error "one of cron or interval_ms is required"
  else if hasCron then
    let text := cron.getD ""
    if isValidCron (trimText text) then .ok (some (trimText text), none)
    else .error
      (s!"invalid cron expression: \"{text}\" (5 UTC fields, e.g. \"0 3 * * *\")")
  else if intervalMs.getD 0 < minIntervalMs then
    .error s!"interval_ms must be >= {minIntervalMs}"
  else .ok (none, intervalMs)

/-- `value?.trim() || null`. -/
def trimmedOrNull (value : Option String) : Option String :=
  (value.map trimText).filter (· ≠ "")

/-- Project, name, `stop_on_fail` and trigger type. -/
def patchDetails (schedule : QaSchedule) (patch : UpdateScheduleInput) :
    Except String QaSchedule :=
  if patch.name.any (trimText · = "") then .error "name cannot be empty" else
  .ok { schedule with
    project_id := match patch.projectId with
      | some p => trimmedOrNull p
      | none => schedule.project_id
    name := (patch.name.map trimText).getD schedule.name
    stop_on_fail := patch.stopOnFail.getD schedule.stop_on_fail
    triggered_by_type := match patch.triggeredByType with
      | some t => if t = "" then "user" else t
      | none => schedule.triggered_by_type }

/-- Scope and scenario ids, validated together. -/
def patchScope (schedule : QaSchedule) (patch : UpdateScheduleInput) : Except String QaSchedule :=
  if patch.scope.isSome ∨ patch.scenarioIds.isSome then
    let scope := patch.scope.getD schedule.scope
    (validateScope scope (patch.scenarioIds.getD schedule.scenario_ids)).map fun ids =>
      { schedule with scope, scenario_ids := ids }
  else .ok schedule

/-- Cron and interval, validated together. -/
def patchCadence (schedule : QaSchedule) (patch : UpdateScheduleInput) :
    Except String QaSchedule :=
  if patch.cron.isSome ∨ patch.intervalMs.isSome then
    (validateCadence (patch.cron.getD schedule.cron)
        (patch.intervalMs.getD schedule.interval_ms)).map fun cadence =>
      { schedule with cron := cadence.1, interval_ms := cadence.2 }
  else .ok schedule

/-- The loaded schedule with the patch applied and its next firing computed again. -/
def applyPatch (schedule : QaSchedule) (patch : UpdateScheduleInput) (now : Date) :
    Except String QaSchedule := do
  let schedule ← patchDetails schedule patch
  let schedule ← patchScope schedule patch
  let schedule ← patchCadence schedule patch
  let schedule := { schedule with enabled := patch.enabled.getD schedule.enabled }
  let next ← computeNextRun schedule now
  return { schedule with next_run_at := next }

inductive UpdatePhase where
  | start
  | loaded (schedule : QaSchedule)
  | write (entity reread : QaSchedule)
  | returned (error : Option String)

inductive RunNowPhase where
  | start
  | dispatching (schedule : QaSchedule)
  | write (entity reread : QaSchedule)
  | returned (error : Option String)

/-! ## Any number of calls -/

/-- A call. A sweep has the instant it started at; `startedAt` is the number of saves made by
    then, which no step depends on. -/
inductive ScheduleCall where
  | sweep (now : Date) (startedAt : Nat) (phase : SweepPhase)
  | runNow (id accountId : String) (phase : RunNowPhase)
  | update (id accountId : String) (patch : UpdateScheduleInput) (phase : UpdatePhase)

/-- The columns that decide when a schedule runs. -/
structure Cadence where
  enabled : Bool
  cron : Option String
  interval_ms : Option Int
  next_run_at : Option Date
deriving DecidableEq

def QaSchedule.cadence (s : QaSchedule) : Cadence :=
  ⟨s.enabled, s.cron, s.interval_ms, s.next_run_at⟩

/-- Which of these columns a save means to set. A sweep means to advance the cursor it found,
    and no other. -/
structure Sets where
  enabled : Bool := false
  cadence : Bool := false
  next_run_at : Bool := false

/-- The columns a save means to set from `new`, the others from `old`. -/
def Cadence.keep (sets : Sets) (new old : Cadence) : Cadence where
  enabled := if sets.enabled then new.enabled else old.enabled
  cron := if sets.cadence then new.cron else old.cron
  interval_ms := if sets.cadence then new.interval_ms else old.interval_ms
  next_run_at := if sets.next_run_at then new.next_run_at else old.next_run_at

/-- An update sets what its patch names, and the cursor always. -/
def UpdateScheduleInput.sets (patch : UpdateScheduleInput) : Sets where
  enabled := patch.enabled.isSome
  cadence := patch.cron.isSome || patch.intervalMs.isSome
  next_run_at := true

/-- The table and the calls, with a record of the run that no step depends on: the saves (by
    which call and of which schedule), the occurrences the sweeps took up and dispatched, and
    for each schedule the cadence columns as they were last set by a save that meant to. -/
structure ScheduleState where
  db : ScheduleDb
  clock : Date
  calls : List ScheduleCall
  saves : List (Nat × String)
  taken : List (String × Date)
  dispatches : List (String × Date)
  committed : List (String × Cadence)

/-- What a statement of a call meets outside the table: whether the instance is quiesced, the
    previous batch, the batch a dispatch started (`none` if it failed) and the error of the
    project check. -/
structure Outside where
  quiesced : Bool := false
  prev : PrevBatch := .idle
  batch : Option String := none
  projectError : Option String := none

/-- The second read of a save. Schedules are not deleted here, so there is a row. -/
def reread (db : ScheduleDb) (entity : QaSchedule) : QaSchedule :=
  (db.row? entity.id).getD entity

/-- The write of a save by call `i`. -/
def saveRow (s : ScheduleState) (i : Nat) (entity reread : QaSchedule) (sets : Sets) :
    ScheduleState :=
  let db := s.db.write entity reread
  let new := ((db.row? entity.id).getD entity).cadence
  { s with
    db
    saves := s.saves ++ [(i, entity.id)]
    committed := s.committed.map fun p =>
      if p.1 = entity.id then (p.1, new.keep sets p.2) else p }

/-- `_dispatchBatch` refuses a selected schedule without scenarios. -/
def canDispatch (schedule : QaSchedule) : Bool :=
  schedule.scope = .all || schedule.scenario_ids.getD [] ≠ []

/-- The next statement of sweep `i`. -/
def sweepStep (s : ScheduleState) (i : Nat) (now : Date) (o : Outside) :
    SweepPhase → Option (ScheduleState × SweepPhase)
  | .start => some (s, if o.quiesced then .returned else .findOrphans)
  | .findOrphans => some (s, .healing s.db.orphans)
  | .healing [] => some (s, .findDue)
  | .healing (e :: rest) =>
    match computeNextRun e now with
    -- a malformed expression outside the `try` ends the sweep
    | .error _ => some (s, .returned)
    | .ok next =>
      let e := { e with next_run_at := next }
      some (s, .healWrite e (reread s.db e) rest)
  | .healWrite e r rest =>
    some (saveRow s i e r { next_run_at := r.next_run_at = none }, .healing rest)
  | .findDue => some (s, .taking (s.db.due now))
  | .taking [] => some (s, .returned)
  | .taking (e :: rest) =>
    match computeNextRun e now with
    | .error _ => some (s, .taking rest)
    | .ok next =>
      let dueAt := e.next_run_at.getD now
      let e := { e with next_run_at := next }
      some (s, .takeWrite e (reread s.db e) dueAt rest)
  | .takeWrite e r dueAt rest =>
    let t := saveRow s i e r { next_run_at := r.next_run_at = some dueAt }
    some ({ t with taken := s.taken ++ [(e.id, dueAt)] }, .checking e dueAt rest)
  | .checking e dueAt rest =>
    if (e.last_batch_id.isSome ∧ o.prev ≠ .idle) ∨ !canDispatch e then some (s, .taking rest)
    else some ({ s with dispatches := s.dispatches ++ [(e.id, dueAt)] }, .dispatching e rest)
  | .dispatching e rest =>
    match o.batch with
    | none => some (s, .taking rest)
    | some batch =>
      let e := { e with last_run_at := some now, last_batch_id := some batch }
      some (s, .stampWrite e (reread s.db e) rest)
  | .stampWrite e r rest => some (saveRow s i e r {}, .taking rest)
  | .returned => none

/-- The next statement of `runNow`. -/
def runNowStep (s : ScheduleState) (i : Nat) (id accountId : String) (o : Outside) :
    RunNowPhase → Option (ScheduleState × RunNowPhase)
  | .start =>
    match s.db.get id accountId with
    | .error e => some (s, .returned (some e))
    | .ok schedule =>
      if canDispatch schedule then some (s, .dispatching schedule)
      else some (s, .returned (some "selected schedule has no scenario_ids"))
  | .dispatching e =>
    match o.batch with
    | none => some (s, .returned (some "batch not started"))
    | some batch =>
      let e := { e with last_run_at := some s.clock, last_batch_id := some batch }
      some (s, .write e (reread s.db e))
  | .write e r => some (saveRow s i e r {}, .returned none)
  | .returned _ => none

/-- The next statement of `update`. -/
def updateStep (s : ScheduleState) (i : Nat) (id accountId : String)
    (patch : UpdateScheduleInput) (o : Outside) :
    UpdatePhase → Option (ScheduleState × UpdatePhase)
  | .start =>
    match s.db.get id accountId with
    | .error e => some (s, .returned (some e))
    | .ok schedule => some (s, .loaded schedule)
  | .loaded schedule =>
    if (patch.projectId.join.any (· ≠ "")) ∧ o.projectError.isSome then
      some (s, .returned o.projectError)
    else
      match applyPatch schedule patch s.clock with
      | .error e => some (s, .returned (some e))
      | .ok e => some (s, .write e (reread s.db e))
  | .write e r => some (saveRow s i e r patch.sets, .returned none)
  | .returned _ => none

inductive ScheduleAction where
  | tick (now : Date)
  | startSweep
  | startRunNow (id accountId : String)
  | startUpdate (id accountId : String) (patch : UpdateScheduleInput)
  | advance (i : Nat) (outside : Outside)

/-- The next statement of call `i`. -/
def callStep (s : ScheduleState) (i : Nat) (o : Outside) :
    ScheduleCall → Option (ScheduleState × ScheduleCall)
  | .sweep now startedAt phase =>
    (sweepStep s i now o phase).map fun r => (r.1, .sweep now startedAt r.2)
  | .runNow id accountId phase =>
    (runNowStep s i id accountId o phase).map fun r => (r.1, .runNow id accountId r.2)
  | .update id accountId patch phase =>
    (updateStep s i id accountId patch o phase).map fun r => (r.1, .update id accountId patch r.2)

def ScheduleState.call (s : ScheduleState) (c : ScheduleCall) : ScheduleState :=
  { s with calls := s.calls ++ [c] }

/-- The clock does not run backwards; a call starts, or a call runs its next statement. -/
def ScheduleState.act (s : ScheduleState) : ScheduleAction → Except String ScheduleState
  | .tick now => if s.clock ≤ now then .ok { s with clock := now } else .error "clock"
  | .startSweep => .ok (s.call (.sweep s.clock s.saves.length .start))
  | .startRunNow id accountId => .ok (s.call (.runNow id accountId .start))
  | .startUpdate id accountId patch => .ok (s.call (.update id accountId patch .start))
  | .advance i o =>
    match s.calls[i]?.bind (callStep s i o) with
    | some (t, c) => .ok { t with calls := t.calls.set i c }
    | none => .error "no statement to run"

/-- Any calls, in any interleaving, on any set of schedules. -/
def scheduleSystem : Transition ScheduleState ScheduleAction where
  init s := (s.db.map (·.id)).Nodup ∧ s.calls = [] ∧ s.saves = [] ∧ s.taken = [] ∧
    s.dispatches = [] ∧ s.committed = s.db.map fun r => (r.id, r.cadence)
  step s a t := s.act a = .ok t

end WorkflowBoard.Qa
