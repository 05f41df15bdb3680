import WorkflowBoard.ForStd.RowSave
import WorkflowBoard.Native.MissionRunner

/-!
# Edits of a mission (`updateMission` of `orchestration-mission.service.ts`)

`updateMission` takes no lock. Like each operation of the runner it loads the mission, waits for
other statements and saves the entity whole: the save reads the row again and writes the columns
in which the entity differs from it. An operation of the runner saves as often as it likes while
it holds the mission's lock; the columns it may assign are `runnerColumns`.

The history has every write with the columns that its call had assigned since it read or wrote
the mission.
-/

namespace WorkflowBoard.Orchestration

inductive UserChatMode where
  | open
  | participants_only
  | off
deriving DecidableEq

/-- The row of a mission, with the columns the runner leaves alone. -/
structure MissionRow where
  mission : Mission := {}
  user_chat_mode : UserChatMode := .open
  step_timeout_minutes : Nat := 0

/-- The columns the status, the plan, the budget and the options of a mission are in. -/
inductive Column where
  | status
  | plan_version
  | graph_spec
  | total_visits
  | post_actions
  | user_chat_mode
  | max_parallel_steps
  | max_steps
  | max_plan_versions
  | step_timeout_minutes
deriving DecidableEq

inductive ColumnValue where
  | status (s : MissionStatus)
  | number (n : Nat)
  | graph (g : Option GraphSpec)
  | actions (l : List MissionPostAction)
  | mode (m : UserChatMode)
deriving DecidableEq

namespace Column

def all : List Column :=
  [status, plan_version, graph_spec, total_visits, post_actions, user_chat_mode,
    max_parallel_steps, max_steps, max_plan_versions, step_timeout_minutes]

def get (r : MissionRow) : Column → ColumnValue
  | status => .status r.mission.status
  | plan_version => .number r.mission.plan_version
  | graph_spec => .graph r.mission.graph_spec
  | total_visits => .number r.mission.total_visits
  | post_actions => .actions r.mission.post_actions
  | user_chat_mode => .mode r.user_chat_mode
  | max_parallel_steps => .number r.mission.max_parallel_steps
  | max_steps => .number r.mission.max_steps
  | max_plan_versions => .number r.mission.max_plan_versions
  | step_timeout_minutes => .number r.step_timeout_minutes

/-- The columns the operations of the runner assign. -/
def runnerColumns : List Column := [status, plan_version, graph_spec, total_visits, post_actions]

end Column

namespace MissionRow

/-- The columns in which two versions of an entity differ. -/
def changed (a b : MissionRow) : List Column := Column.all.filter fun c => c.get a ≠ c.get b

/-- `save`: the row after the entity was written, where `reread` is what the save has read. -/
def save (entity reread row : MissionRow) : MissionRow :=
  let e := entity.mission
  let r := reread.mission
  let m := row.mission
  { mission := {
      status := saveColumn e.status r.status m.status
      projects := saveColumn e.projects r.projects m.projects
      folder_scope := saveColumn e.folder_scope r.folder_scope m.folder_scope
      room_id := saveColumn e.room_id r.room_id m.room_id
      orchestrator_agent_id :=
        saveColumn e.orchestrator_agent_id r.orchestrator_agent_id m.orchestrator_agent_id
      orchestrator_spec := saveColumn e.orchestrator_spec r.orchestrator_spec m.orchestrator_spec
      runtime_roster := saveColumn e.runtime_roster r.runtime_roster m.runtime_roster
      max_parallel_steps :=
        saveColumn e.max_parallel_steps r.max_parallel_steps m.max_parallel_steps
      max_steps := saveColumn e.max_steps r.max_steps m.max_steps
      max_plan_versions := saveColumn e.max_plan_versions r.max_plan_versions m.max_plan_versions
      plan_version := saveColumn e.plan_version r.plan_version m.plan_version
      plan_summary := saveColumn e.plan_summary r.plan_summary m.plan_summary
      graph_enabled := saveColumn e.graph_enabled r.graph_enabled m.graph_enabled
      graph_spec := saveColumn e.graph_spec r.graph_spec m.graph_spec
      graph_revision := saveColumn e.graph_revision r.graph_revision m.graph_revision
      total_visits := saveColumn e.total_visits r.total_visits m.total_visits
      confirm_policy := saveColumn e.confirm_policy r.confirm_policy m.confirm_policy
      completion_criteria :=
        saveColumn e.completion_criteria r.completion_criteria m.completion_criteria
      post_actions := saveColumn e.post_actions r.post_actions m.post_actions
      post_actions_pending :=
        saveColumn e.post_actions_pending r.post_actions_pending m.post_actions_pending
      result_summary := saveColumn e.result_summary r.result_summary m.result_summary
      failure_reason := saveColumn e.failure_reason r.failure_reason m.failure_reason
      started_at := saveColumn e.started_at r.started_at m.started_at
      finished_at := saveColumn e.finished_at r.finished_at m.finished_at }
    user_chat_mode := saveColumn entity.user_chat_mode reread.user_chat_mode row.user_chat_mode
    step_timeout_minutes :=
      saveColumn entity.step_timeout_minutes reread.step_timeout_minutes row.step_timeout_minutes }

end MissionRow

/-- A patch with the values of the options that the runner leaves alone. -/
structure MissionEdit where
  patch : MissionPatch := {}
  /-- `user_chat_mode`, where the patch has one. -/
  mode : UserChatMode := .open
  step_timeout_minutes : Option Int := none
deriving DecidableEq

def MAX_TIMEOUT_MINUTES : Int := 60 * 24 * 7

/-- The checks of `updateMission` on the entity, and the entity it saves. -/
def MissionRow.edit (entity : MissionRow) (input : MissionEdit) : Except Refusal MissionRow := do
  let patch := { input.patch with
    options := input.patch.options || input.step_timeout_minutes.isSome }
  let r ← Runner.updateMission { mission := entity.mission } patch
  return {
    mission := r.mission
    user_chat_mode := if patch.user_chat_mode then input.mode else entity.user_chat_mode
    step_timeout_minutes :=
      clampInt input.step_timeout_minutes entity.step_timeout_minutes 0 MAX_TIMEOUT_MINUTES }

/-! ## Calls -/

inductive CallKind where
  /-- `updateMission`, before and behind its checks. -/
  | editing (input : MissionEdit)
  | edited
  /-- An operation of the runner. -/
  | locked
  | ended
deriving DecidableEq

/-- A call with the entity it holds. `assigned` are the columns it has changed in the entity
    since it read or wrote the row, `since` the length of the history then, and `reread` what a
    save in progress has read. -/
structure EntityCall where
  kind : CallKind
  entity : MissionRow
  assigned : List Column := []
  since : Nat
  reread : Option (MissionRow × Nat) := none

/-- A write of the call `caller`. -/
structure EntityWrite where
  caller : Nat
  before : MissionRow
  after : MissionRow
  assigned : List Column

structure EditState where
  row : MissionRow
  calls : List EntityCall := []
  log : List EntityWrite := []

namespace EditState

def setCall (s : EditState) (k : Nat) (x : EntityCall) : EditState :=
  { s with calls := s.calls.set k x }

/-- A call loads the mission; one operation of the runner at a time. -/
def load (s : EditState) (kind : CallKind) : Option EditState :=
  if kind = .locked ∧ s.calls.any (·.kind = .locked) then none
  else some { s with calls := s.calls ++ [{ kind, entity := s.row, since := s.log.length }] }

/-- The entity becomes `entity`. -/
def assign (s : EditState) (k : Nat) (x : EntityCall) (entity : MissionRow) (kind : CallKind) :
    EditState :=
  s.setCall k { x with kind, entity, assigned := x.assigned ++ x.entity.changed entity }

/-- The checks of an edit. -/
def edit (s : EditState) (k : Nat) (x : EntityCall) : Option EditState :=
  match x.kind, x.reread with
  | .editing input, none =>
    match x.entity.edit input with
    | .error _ => some (s.setCall k { x with kind := .ended })
    | .ok entity => some (s.assign k x entity .edited)
  | _, _ => none

/-- An operation of the runner changes its entity. -/
def change (s : EditState) (m : Mission) (k : Nat) (x : EntityCall) : Option EditState :=
  let entity := { x.entity with mission := m }
  if x.kind = .locked ∧ x.reread = none ∧ x.entity.changed entity ⊆ Column.runnerColumns then
    some (s.assign k x entity .locked)
  else none

/-- A save reads the row. -/
def reread (s : EditState) (k : Nat) (x : EntityCall) : Option EditState :=
  if (x.kind = .edited ∨ x.kind = .locked) ∧ x.reread = none then
    some (s.setCall k { x with reread := some (s.row, s.log.length) })
  else none

/-- A save writes. -/
def write (s : EditState) (k : Nat) (x : EntityCall) : Option EditState :=
  match x.reread with
  | some (reread, since) =>
    let row := x.entity.save reread s.row
    some { s with
      row
      calls := s.calls.set k { x with
        kind := if x.kind = .edited then .ended else x.kind
        assigned := [], since, reread := none }
      log := s.log ++ [⟨k, s.row, row, x.assigned⟩] }
  | none => none

/-- An operation returns, or a call throws. -/
def finish (s : EditState) (k : Nat) (x : EntityCall) : Option EditState :=
  some (s.setCall k { x with kind := .ended, reread := none })

end EditState

inductive EditAction where
  | updateMission (input : MissionEdit)
  | lock
  | edit (k : Nat)
  | change (m : Mission) (k : Nat)
  | reread (k : Nat)
  | write (k : Nat)
  | finish (k : Nat)

/-- One statement, if there is one. -/
def EditAction.run (s : EditState) : EditAction → Option EditState
  | updateMission input => s.load (.editing input)
  | lock => s.load .locked
  | edit k => (s.calls[k]?).bind (s.edit k)
  | change m k => (s.calls[k]?).bind (s.change m k)
  | reread k => (s.calls[k]?).bind (s.reread k)
  | write k => (s.calls[k]?).bind (s.write k)
  | finish k => (s.calls[k]?).bind (s.finish k)

/-- The runs of one mission under edits and operations of the runner. -/
def editSystem : Transition EditState EditAction where
  init s := s.calls = [] ∧ s.log = []
  step s a s' := a.run s = some s'

end WorkflowBoard.Orchestration
