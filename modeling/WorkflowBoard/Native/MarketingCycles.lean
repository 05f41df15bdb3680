import Mathlib.Data.List.MinMax
import WorkflowBoard.ForStd.Transition
import WorkflowBoard.Native.JsDate

/-!
# Cycles of marketing campaigns (`modules/marketing/marketing-cycle.service.ts`)

The rows of `marketing_cycles`, the calls of `dispatch` that start a cycle, and the calls that close
running cycles: the tick, for those whose lease is over, and the hook of a campaign that is stopped
(`marketing-campaign.service.ts`). Each statement of a call is one step, so that calls of any number
of servers interleave.

A tick and a manual run call `dispatch` with a campaign that they have read; which campaigns are due
is left open. A call that is refused for the run budget or for want of an agent, or whose server
dies, takes no further step. The prompt, the room, audit and the deletion of campaigns are left out.
-/

namespace WorkflowBoard.Cycles

/-! ## Rows -/

inductive CampaignStatus where
  | draft
  | active
  | paused
  | archived
deriving DecidableEq

def CampaignStatus.text : CampaignStatus → String
  | .draft => "draft"
  | .active => "active"
  | .paused => "paused"
  | .archived => "archived"

/-- `TRANSITIONS`. -/
def CampaignStatus.transitions : CampaignStatus → List CampaignStatus
  | .draft => [.active, .archived]
  | .active => [.paused, .archived]
  | .paused => [.active, .archived]
  | .archived => [.paused]

/-- `assertTransition`. -/
def CampaignStatus.mayMove (before after : CampaignStatus) : Bool :=
  before = after || before.transitions.contains after

structure Campaign where
  status : CampaignStatus := .draft
  /-- How often it was activated. Not a column. -/
  activations : Nat := 0

inductive CycleStatus where
  | running
  | completed
  | timed_out
  | cancelled
  | failed
deriving DecidableEq

structure Cycle where
  campaign_id : Nat
  cycle_no : Nat
  status : CycleStatus := .running
  started_at : Date

/-- What `uq_marketing_cycles_no` is about. -/
def Cycle.key (r : Cycle) : Nat × Nat := (r.campaign_id, r.cycle_no)

def Cycle.isRunningOf (campaign : Nat) (r : Cycle) : Bool :=
  r.campaign_id = campaign && r.status = .running

/-- `UPDATE … SET status WHERE id AND status = 'running'`, as `close` and `complete` have it. -/
def Cycle.close (status : CycleStatus) (r : Cycle) : Cycle :=
  if r.status = .running then { r with status } else r

/-! ## Calls -/

inductive DispatchPhase where
  | looking
  /-- The running cycle that was found is over its lease. -/
  | timingOut (place : Nat)
  | numbering
  | saving (cycle_no : Nat)
  | starting (place : Nat)
  | started (place : Nat)
  | failed (place : Nat)
  | refused (error : String)

/-- `dispatch`, from the read of the campaign on. -/
structure DispatchCall where
  campaign : Nat
  now : Date
  /-- How many cycles there were when it looked for a running one. Not in the code. -/
  looked : Nat := 0
  phase : DispatchPhase

inductive Closer where
  | tick
  /-- The campaign was stopped after so many activations. -/
  | stop (campaign activations : Nat)
deriving DecidableEq

inductive ClosePhase where
  | finding
  | closing (rest : List Nat)
deriving DecidableEq

/-- The loop over `close` of a tick or of the stop hook. -/
structure CloseCall where
  closer : Closer
  phase : ClosePhase

def Closer.status : Closer → CycleStatus
  | .tick => .timed_out
  | .stop _ _ => .cancelled

structure CycleState where
  campaigns : List Campaign := []
  cycles : List Cycle := []
  dispatches : List DispatchCall := []
  closings : List CloseCall := []

/-! ## Steps -/

/-- `CYCLE_LEASE_MS`. -/
def cycleLeaseMs : Int := 6 * 60 * 60000

/-- How many stale cycles a tick takes. -/
def staleBatch : Nat := 200

inductive CycleAction where
  | create
  | setStatus (campaign : Nat) (status : CampaignStatus)
  /-- A tick or a manual run reads the campaign. -/
  | dispatch (campaign : Nat) (now : Date)
  | dispatchNext (k : Nat)
  /-- A statement after the insert throws. -/
  | dispatchThrows (k : Nat)
  | complete (place : Nat)
  | tick (now : Date)
  | closeNext (k : Nat)

namespace CycleState

variable (s : CycleState)

/-- The rows that pass, with their places. -/
def find (p : Cycle → Bool) : List (Cycle × Nat) := s.cycles.zipIdx.filter fun x => p x.1

def setDispatch (k : Nat) (c : DispatchCall) : CycleState :=
  { s with dispatches := s.dispatches.set k c }

def setClosing (k : Nat) (c : CloseCall) : CycleState :=
  { s with closings := s.closings.set k c }

def close (place : Nat) (status : CycleStatus) : CycleState :=
  { s with cycles := s.cycles.modify place (Cycle.close status) }

def insert (r : Cycle) : CycleState := { s with cycles := s.cycles ++ [r] }

/-- `UPDATE … SET status = 'failed' WHERE id`. -/
def fail (place : Nat) : CycleState :=
  { s with cycles := s.cycles.modify place fun r => { r with status := .failed } }

def startDispatch (campaign : Nat) (now : Date) (status : CampaignStatus) : CycleState :=
  { s with dispatches := s.dispatches ++ [{
      campaign, now
      phase := if status = .active then .looking
        else .refused s!"campaign is {status.text} — activate it to run cycles" }] }

-- Times are compared as integers; Mathlib has a further order on them that does not compute.
local instance (priority := high) timeOrder : Preorder Int := Int.instLinearOrder.toPreorder

/-- The next statement of `dispatch`. -/
def dispatchStep (k : Nat) (c : DispatchCall) : Option CycleState :=
  match c.phase with
  | .looking =>
      let running := (s.find (·.isRunningOf c.campaign)).argmax fun x => x.1.started_at
      some (s.setDispatch k { c with
        looked := s.cycles.length
        phase :=
          match running with
          | none => .numbering
          | some (r, place) =>
              if c.now - r.started_at < cycleLeaseMs then
                .refused
                  s!"cycle #{r.cycle_no} is still running — it must complete (or time out) first"
              else .timingOut place })
  | .timingOut place =>
      some ((s.close place .timed_out).setDispatch k { c with phase := .numbering })
  | .numbering =>
      let last := (s.cycles.filter (·.campaign_id = c.campaign)).argmax (·.cycle_no)
      some (s.setDispatch k
        { c with phase := .saving ((last.elim 0 (·.cycle_no)) + 1) })
  | .saving cycle_no =>
      if (c.campaign, cycle_no) ∈ s.cycles.map Cycle.key then
        some (s.setDispatch k
          { c with phase := .refused "another cycle started at the same moment" })
      else
        some ((s.insert { campaign_id := c.campaign, cycle_no, started_at := c.now }).setDispatch k
          { c with phase := .starting s.cycles.length })
  | .starting place => some (s.setDispatch k { c with phase := .started place })
  | .started _ | .failed _ | .refused _ => none

/-- Where a statement after the insert throws. -/
def dispatchFail (k : Nat) (c : DispatchCall) : Option CycleState :=
  match c.phase with
  | .starting place =>
      some ((s.fail place).setDispatch k { c with phase := .failed place })
  | _ => none

/-- The next statement of a tick's loop or of the stop hook. -/
def closeStep (k : Nat) (c : CloseCall) : Option CycleState :=
  match c.phase, c.closer with
  | .finding, .stop campaign _ =>
      some (s.setClosing k
        { c with phase := .closing ((s.find (·.isRunningOf campaign)).map (·.2)) })
  | .closing (place :: rest), closer =>
      some ((s.close place closer.status).setClosing k { c with phase := .closing rest })
  | .finding, .tick | .closing [], _ => none

def step (a : CycleAction) : Option CycleState :=
  match a with
  | .create => some { s with campaigns := s.campaigns ++ [{}] }
  | .setStatus campaign status =>
      match s.campaigns[campaign]? with
      | some c =>
          if c.status.mayMove status then
            if status = .active then
              some { s with campaigns :=
                s.campaigns.set campaign { status, activations := c.activations + 1 } }
            else
              some { s with
                campaigns := s.campaigns.set campaign { c with status }
                closings := s.closings ++
                  [{ closer := .stop campaign c.activations, phase := .finding }] }
          else none
      | none => none
  | .dispatch campaign now =>
      match s.campaigns[campaign]? with
      | some c => some (s.startDispatch campaign now c.status)
      | none => none
  | .dispatchNext k =>
      match s.dispatches[k]? with
      | some c => s.dispatchStep k c
      | none => none
  | .dispatchThrows k =>
      match s.dispatches[k]? with
      | some c => s.dispatchFail k c
      | none => none
  | .complete place => some (s.close place .completed)
  | .tick now =>
      let stale := s.find fun r => r.status = .running && r.started_at < now - cycleLeaseMs
      some { s with closings := s.closings ++
        [{ closer := .tick, phase := .closing ((stale.map (·.2)).take staleBatch) }] }
  | .closeNext k =>
      match s.closings[k]? with
      | some c => s.closeStep k c
      | none => none

end CycleState

def cycleSystem : Transition CycleState CycleAction where
  init s := s = {}
  step s a s' := s.step a = some s'

end WorkflowBoard.Cycles
