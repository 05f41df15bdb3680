import WorkflowBoard.ForStd.RowSave
import WorkflowBoard.Native.MissionRunner

/-!
# Notices of a gate (`orchestration-confirm-notify.service.ts`)

When a gate opens, the user is told about it once for each pass, and reminded once. The server
that sends a notice has claimed it: one `UPDATE` of the gate's row that marks the pass, if the
row still waits for the user at that pass and has no such mark. Any number of servers open
gates, save decisions, plans and other changes of the step, and sweep for reminders; the lock of
a mission holds on one server only, so each of their statements is a step here.

`openConfirmGate` writes its columns by an update; every other operation of the runner saves
the whole entity, with the marks it was loaded with. What sends the messages is left out, and
so is the age that makes a gate due for a reminder: a sweep may come at any time.
-/

namespace WorkflowBoard.Orchestration

/-- The row of a gate, with the marks of its notices. -/
structure GateRow where
  step : Step
  confirm_notified_visit : Option Nat := none
  confirm_notified_at : Option Date := none
  confirm_reminded_visit : Option Nat := none

inductive NoticeKind where
  | notice
  | reminder
deriving DecidableEq

/-- The mark that a claim sets. -/
def NoticeKind.mark (kind : NoticeKind) (row : GateRow) : Option Nat :=
  match kind with
  | notice => row.confirm_notified_visit
  | reminder => row.confirm_reminded_visit

namespace GateRow

/-- `save`: the row after the entity was written, where `reread` is what the save has read. -/
def save (entity reread row : GateRow) : GateRow :=
  let e := entity.step
  let r := reread.step
  let s := row.step
  { step := {
      step_key := saveColumn e.step_key r.step_key s.step_key
      title := saveColumn e.title r.title s.title
      instructions := saveColumn e.instructions r.instructions s.instructions
      acceptance_criteria :=
        saveColumn e.acceptance_criteria r.acceptance_criteria s.acceptance_criteria
      depends_on := saveColumn e.depends_on r.depends_on s.depends_on
      assignee_slot := saveColumn e.assignee_slot r.assignee_slot s.assignee_slot
      project_id := saveColumn e.project_id r.project_id s.project_id
      assignee_agent_id := saveColumn e.assignee_agent_id r.assignee_agent_id s.assignee_agent_id
      status := saveColumn e.status r.status s.status
      position := saveColumn e.position r.position s.position
      plan_version := saveColumn e.plan_version r.plan_version s.plan_version
      attempt := saveColumn e.attempt r.attempt s.attempt
      max_attempts := saveColumn e.max_attempts r.max_attempts s.max_attempts
      retry_policy := saveColumn e.retry_policy r.retry_policy s.retry_policy
      visit := saveColumn e.visit r.visit s.visit
      lease_token := saveColumn e.lease_token r.lease_token s.lease_token
      verdict := saveColumn e.verdict r.verdict s.verdict
      result_summary := saveColumn e.result_summary r.result_summary s.result_summary
      artifacts := saveColumn e.artifacts r.artifacts s.artifacts
      confirm_decision := saveColumn e.confirm_decision r.confirm_decision s.confirm_decision
      auto_blocked := saveColumn e.auto_blocked r.auto_blocked s.auto_blocked
      recovery_reason := saveColumn e.recovery_reason r.recovery_reason s.recovery_reason
      checkpoint := saveColumn e.checkpoint r.checkpoint s.checkpoint
      dispatched_at := saveColumn e.dispatched_at r.dispatched_at s.dispatched_at
      started_at := saveColumn e.started_at r.started_at s.started_at
      finished_at := saveColumn e.finished_at r.finished_at s.finished_at
      last_heartbeat_at := saveColumn e.last_heartbeat_at r.last_heartbeat_at s.last_heartbeat_at
      lease_stale_since := saveColumn e.lease_stale_since r.lease_stale_since s.lease_stale_since }
    confirm_notified_visit := saveColumn entity.confirm_notified_visit
      reread.confirm_notified_visit row.confirm_notified_visit
    confirm_notified_at := saveColumn entity.confirm_notified_at
      reread.confirm_notified_at row.confirm_notified_at
    confirm_reminded_visit := saveColumn entity.confirm_reminded_visit
      reread.confirm_reminded_visit row.confirm_reminded_visit }

/-- The columns `openConfirmGate` writes; the marks are not among them. -/
def updateGate (row : GateRow) (gate : Step) : GateRow :=
  { row with step := { row.step with
      status := gate.status, visit := gate.visit, dispatched_at := gate.dispatched_at
      started_at := gate.started_at, finished_at := gate.finished_at
      confirm_decision := gate.confirm_decision, verdict := gate.verdict
      result_summary := gate.result_summary, artifacts := gate.artifacts } }

/-- The row after a claim that won. -/
def marked (row : GateRow) (kind : NoticeKind) (visit : Nat) (now : Date) : GateRow :=
  match kind with
  | .notice => { row with confirm_notified_visit := some visit, confirm_notified_at := some now }
  | .reminder => { row with confirm_reminded_visit := some visit }

/-- The condition of the `UPDATE` of a claim. -/
def claimable (row : GateRow) (kind : NoticeKind) (visit : Nat) : Bool :=
  row.step.visit = visit && row.step.status.isAwaitingUser && kind.mark row ≠ some visit

/-- A gate the sweep finds. -/
def isReminderDue (row : GateRow) : Bool :=
  row.step.status.isAwaitingUser && row.confirm_reminded_visit ≠ some row.step.visit

end GateRow

/-! ## Calls -/

inductive GateCallKind where
  /-- The pump, before and behind the update that opens the gate. -/
  | opening
  | opened
  /-- `submitConfirmDecision`, before and behind its checks. -/
  | deciding (input : ConfirmInput)
  | decided
  /-- An operation that saves the step: a plan, a loop that goes back, an update. -/
  | saving
  /-- The sweep, with a gate it has found. -/
  | reminding
  | ended
deriving DecidableEq

/-- The calls that begin; a sweep begins with a gate that is due. -/
def GateCallKind.begins (row : GateRow) : GateCallKind → Bool
  | opening | deciding _ | saving => true
  | reminding => row.isReminderDue
  | opened | decided | ended => false

/-- A call with the entity it holds; `reread` is what a save in progress has read. -/
structure GateCall where
  kind : GateCallKind
  entity : GateRow
  reread : Option GateRow := none

/-- What was claimed, and the passes whose decision was committed. -/
inductive NoticeEvent where
  | claimed (kind : NoticeKind) (visit : Nat)
  | decided (visit : Nat)
deriving DecidableEq

structure NoticeState where
  row : GateRow
  calls : List GateCall := []
  log : List NoticeEvent := []

namespace NoticeState

def setCall (s : NoticeState) (k : Nat) (x : GateCall) : NoticeState :=
  { s with calls := s.calls.set k x }

/-- A call reads the row. -/
def load (s : NoticeState) (kind : GateCallKind) : Option NoticeState :=
  if kind.begins s.row then
    some { s with calls := s.calls ++ [{ kind, entity := s.row }] } else none

/-- `openConfirmGate` up to the claim, with the mission and the steps the pump holds in `r`. -/
def openGate (s : NoticeState) (r : Runner) (now : Date) (k : Nat) (x : GateCall) :
    Option NoticeState :=
  let step := x.entity.step
  if x.kind = .opening ∧ r.mission.status = .running ∧ step ∈ r.candidates ∧
      isConfirmNode r.mission step.step_key ∧ hasVisitBudget r.mission then
    let gate := step.openGate (r.gateEvidence step.step_key) now
    some { s with
      row := s.row.updateGate gate
      calls := s.calls.set k { x with kind := .opened, entity := { x.entity with step := gate } } }
  else none

/-- `claim`, for the pass the call has in hand. -/
def claim (s : NoticeState) (kind : NoticeKind) (now : Date) (k : Nat) (x : GateCall) :
    NoticeState :=
  let visit := x.entity.step.visit
  if s.row.claimable kind visit then
    { s with
      row := s.row.marked kind visit now
      calls := s.calls.set k { x with kind := .ended }
      log := s.log ++ [.claimed kind visit] }
  else s.setCall k { x with kind := .ended }

/-- The claim of a call. -/
def claimNext (s : NoticeState) (now : Date) (k : Nat) (x : GateCall) : Option NoticeState :=
  match x.kind with
  | .opened => some (s.claim .notice now k x)
  | .reminding => some (s.claim .reminder now k x)
  | _ => none

/-- The checks of `submitConfirmDecision`, with the mission `m`. -/
def decide (s : NoticeState) (m : Mission) (now : Date) (k : Nat) (x : GateCall) :
    Option NoticeState :=
  match x.kind with
  | .deciding input =>
    match Runner.confirmChecks { mission := m, steps := [x.entity.step] } x.entity.step.step_key
        input with
    | .ok (some (step, verdict)) =>
      some (s.setCall k { x with
        kind := .decided
        entity := { x.entity with step := Runner.decided step verdict input now } })
    | _ => some (s.setCall k { x with kind := .ended })
  | _ => none

/-- The row of the step in a submitted plan, with the mission `m`. -/
def revise (s : NoticeState) (m : Mission) (input : PlanInput) (p : PlanStep) (index : Nat)
    (k : Nat) (x : GateCall) : Option NoticeState :=
  if x.kind = .saving ∧ x.reread = none ∧ p.key = x.entity.step.step_key then
    match Runner.plannedStep { mission := m, steps := [x.entity.step] } input p index with
    | .ok step => some (s.setCall k { x with entity := { x.entity with step } })
    | .error _ => some (s.setCall k { x with kind := .ended })
  else none

/-- A loop sends the gate back for another pass. -/
def reenter (s : NoticeState) (k : Nat) (x : GateCall) : Option NoticeState :=
  if x.kind = .saving ∧ x.reread = none then
    some (s.setCall k { x with entity := { x.entity with step := x.entity.step.reenter } })
  else none

/-- Another operation changes its step: none but `openConfirmGate` lets it wait for the user,
    and none takes the number of its pass back. -/
def change (s : NoticeState) (step : Step) (k : Nat) (x : GateCall) : Option NoticeState :=
  let held := x.entity.step
  if x.kind = .saving ∧ x.reread = none ∧ held.visit ≤ step.visit ∧
      (step.status.isAwaitingUser → held.status.isAwaitingUser) then
    some (s.setCall k { x with entity := { x.entity with step } })
  else none

/-- A save reads the row. -/
def reread (s : NoticeState) (k : Nat) (x : GateCall) : Option NoticeState :=
  if (x.kind = .decided ∨ x.kind = .saving) ∧ x.reread = none then
    some (s.setCall k { x with reread := some s.row })
  else none

/-- A save writes. The operation goes on behind it, with the same entity; the loops behind a
    decision read the row again. -/
def write (s : NoticeState) (k : Nat) (x : GateCall) : Option NoticeState :=
  match x.reread with
  | some reread =>
    some {
      row := x.entity.save reread s.row
      calls := s.calls.set k { x with
        kind := if x.kind = .decided then .ended else x.kind
        reread := none }
      log := s.log ++ if x.kind = .decided then [.decided x.entity.step.visit] else [] }
  | none => none

end NoticeState

inductive NoticeAction where
  | load (kind : GateCallKind)
  | openGate (r : Runner) (now : Date) (k : Nat)
  | claim (now : Date) (k : Nat)
  | decide (m : Mission) (now : Date) (k : Nat)
  | revise (m : Mission) (input : PlanInput) (p : PlanStep) (index : Nat) (k : Nat)
  | reenter (k : Nat)
  | change (step : Step) (k : Nat)
  | reread (k : Nat)
  | write (k : Nat)
  /-- An operation returns, or a call throws. -/
  | finish (k : Nat)

/-- One statement, if there is one. -/
def NoticeAction.run (s : NoticeState) : NoticeAction → Option NoticeState
  | load kind => s.load kind
  | openGate r now k => (s.calls[k]?).bind (s.openGate r now k)
  | claim now k => (s.calls[k]?).bind (s.claimNext now k)
  | decide m now k => (s.calls[k]?).bind (s.decide m now k)
  | revise m input p index k => (s.calls[k]?).bind (s.revise m input p index k)
  | reenter k => (s.calls[k]?).bind (s.reenter k)
  | change step k => (s.calls[k]?).bind (s.change step k)
  | reread k => (s.calls[k]?).bind (s.reread k)
  | write k => (s.calls[k]?).bind (s.write k)
  | finish k => (s.calls[k]?).map fun x => s.setCall k { x with kind := .ended, reread := none }

/-- The runs of the calls on one gate. -/
def noticeSystem : Transition NoticeState NoticeAction where
  init s := s.calls = [] ∧ s.log = []
  step s a s' := a.run s = some s'

end WorkflowBoard.Orchestration
