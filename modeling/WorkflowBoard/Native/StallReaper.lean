import WorkflowBoard.Native.MissionRunner

/-!
# The stall sweep (`reapStalledRunning` of `orchestration-reaper.service.ts`)

A running mission with nothing in flight is briefed again by the reaper, at most twice, and
then given up. The sweep reads the mission, its steps and its timeline without the mission's
lock, one statement at a time; the nudge and the give-up take the lock. Any number of servers
sweep, and the calls of the runner go on in between. A sweep that leaves the mission alone,
such as one that waits for an approval, does not go on.

Of the timeline, the sweep reads the entries `orchestrator_woken` and `error`; here those that
the runner and the operator write appear at any time. The history also holds what the entries
are to be compared with: the mission's progress and the gates that were opened.
-/

namespace WorkflowBoard.Orchestration

/-- `data.reason` of an entry, as far as the sweep tells them apart. -/
inductive WakeReason where
  | running_stall
  | running_stall_nudge_failed
  | other
deriving DecidableEq

inductive WakeType where
  | orchestrator_woken
  | error
deriving DecidableEq

/-- An entry of the timeline. -/
structure WakeEvent where
  type : WakeType
  reason : WakeReason
  created_at : Date
deriving DecidableEq

/-- What has happened to the mission, in order. -/
inductive StallEvent where
  | wake (e : WakeEvent)
  /-- A step was dispatched, or a report or a plan was accepted. -/
  | progress
  | gateOpened
deriving DecidableEq

def StallEvent.wake? : StallEvent → Option WakeEvent
  | .wake e => some e
  | _ => none

def StallEvent.isProgress : StallEvent → Bool
  | .progress => true
  | _ => false

def RUNNING_STALL_NUDGE_LIMIT : Nat := 2

/-- Where a sweep stands with the mission. `read` and `counted` tell how much of the history
    there was when it read the steps and the timeline. -/
inductive SweepPhase where
  | found (started_at : Option Date)
  | quiet (read : Nat)
  | givingUp (read counted : Nat)
  | nudging
  | nudgeFailed
  | finished

/-- A sweep; its `now` is the time it began. -/
structure Sweep where
  now : Date
  phase : SweepPhase

structure StallState where
  runner : Runner
  clock : Date
  log : List StallEvent := []
  sweeps : List Sweep := []

namespace StallState

/-- The last time a step finished, or the start of the mission; 0 where there is neither. -/
def baselineMs (steps : List Step) (started_at : Option Date) : Int :=
  let lastFinishedMs := steps.foldl (fun latest s => max latest (s.finished_at.getD 0)) 0
  if lastFinishedMs ≠ 0 then lastFinishedMs else started_at.getD 0

/-- The newest entries of the timeline, newest first. -/
def wakeEvents (log : List StallEvent) : List WakeEvent :=
  (log.reverse.filterMap (·.wake?)).take 20

/-- The entries the sweep waits a window for: each wake, and its own failed attempts. -/
def isStallAttempt (e : WakeEvent) : Bool :=
  e.type = .orchestrator_woken || e.reason = .running_stall_nudge_failed

/-- The attempts of the reaper for this kind of stall. -/
def isStallNudge (e : WakeEvent) : Bool :=
  isStallAttempt e && (e.reason = .running_stall || e.reason = .running_stall_nudge_failed)

/-- What the sweep does next when it has read the timeline. -/
def nextPhase (window now : Int) (events : List WakeEvent) (read counted : Nat) : SweepPhase :=
  let stallAttempts := events.filter isStallAttempt
  let priorStallNudges := stallAttempts.countP isStallNudge
  if stallAttempts.head?.any fun lastWake => now - lastWake.created_at < window then .finished
  else if RUNNING_STALL_NUDGE_LIMIT ≤ priorStallNudges then .givingUp read counted
  else .nudging

/-- Sweep `k` goes on. -/
def goTo (s : StallState) (k : Nat) (sweep : Sweep) (phase : SweepPhase) : StallState :=
  { s with sweeps := s.sweeps.set k { sweep with phase } }

/-- An entry is written now. -/
def record (s : StallState) (type : WakeType) (reason : WakeReason) : StallState :=
  { s with log := s.log ++ [.wake ⟨type, reason, s.clock⟩] }

/-- Whether a call dispatched a step, or was a report or a plan that was accepted. -/
def isProgress (r : Runner) (a : Action) (o : Outcome) : Bool :=
  ((o.runner.log.drop r.log.length).any fun e => match e with
    | .dispatched .. => true
    | _ => false) ||
  match a with
  | .submitPlan .. | .reportStep .. | .reportProgress .. => o.reply.toBool
  | _ => false

/-- Whether a step waits for the user that did not before. -/
def opensGate (r r' : Runner) : Bool :=
  r'.steps.any fun t => t.status.isAwaitingUser &&
    r.steps.all fun s => s.step_key ≠ t.step_key || !s.status.isAwaitingUser

/-- A call of the runner. -/
def call (s : StallState) (a : Action) : StallState :=
  let o := a.run s.clock s.runner
  { s with
    runner := o.runner
    log := s.log ++ (if opensGate s.runner o.runner then [.gateOpened] else []) ++
      if isProgress s.runner a o then [.progress] else [] }

/-- The next read of sweep `k`. -/
def sweepRead (s : StallState) (window : Int) (k : Nat) (sweep : Sweep) : Option StallState :=
  match sweep.phase with
  | .found started_at =>
    let steps := s.runner.steps
    let baseline := baselineMs steps started_at
    some (s.goTo k sweep
      (if steps.any (·.status.isInFlight) ∨ steps.any (·.status.isAwaitingUser) ∨ baseline = 0 ∨
        sweep.now - baseline < window then .finished else .quiet s.log.length))
  | .quiet read =>
    some (s.goTo k sweep (nextPhase window sweep.now (wakeEvents s.log) read s.log.length))
  | _ => none

/-- The give-up of sweep `k`, under the mission's lock. -/
def giveUp (s : StallState) (k : Nat) (sweep : Sweep) (reason : String) : Option StallState :=
  match sweep.phase with
  | .givingUp .. =>
    some { s.goTo k sweep .finished with
      runner := (s.runner.failMissionExternally true reason sweep.now).runner }
  | _ => none

/-- The nudge of sweep `k`, under the mission's lock; the message may not be delivered. -/
def nudgeOrchestrator (s : StallState) (k : Nat) (sweep : Sweep) (delivered : Bool) :
    Option StallState :=
  match sweep.phase with
  | .nudging =>
    let m := s.runner.mission
    if m.room_id.all (· = "") ∨ m.status.isTerminal ∨ !delivered then
      some (s.goTo k sweep .nudgeFailed)
    else some ((s.goTo k sweep .finished).record .orchestrator_woken .running_stall)
  | _ => none

/-- The entry of a nudge that failed. -/
def noteFailure (s : StallState) (k : Nat) (sweep : Sweep) : Option StallState :=
  match sweep.phase with
  | .nudgeFailed => some ((s.goTo k sweep .finished).record .error .running_stall_nudge_failed)
  | _ => none

end StallState

inductive StallAction where
  /-- Time passes. -/
  | wait (ms : Nat)
  /-- A call of the runner. -/
  | call (a : Action)
  /-- The runner or an operator wakes the orchestrator, or an error is noted. -/
  | wake (type : WakeType)
  /-- A sweep finds the mission. -/
  | sweep
  | read (k : Nat)
  | nudge (k : Nat) (delivered : Bool)
  | noteFailure (k : Nat)
  | giveUp (k : Nat) (reason : String)

/-- Whether the mission's lock is free for the step. -/
def StallAction.mayRun (s : StallState) : StallAction → Bool
  | .call a => (!a.locks || s.runner.post.isNone) && match a with
    | .failMissionExternally expectedRunning _ => !expectedRunning
    | _ => true
  | .nudge .. | .giveUp .. => s.runner.post.isNone
  | _ => true

/-- One step, if there is one. -/
def StallAction.run (window : Int) (s : StallState) (a : StallAction) : Option StallState :=
  if !a.mayRun s then none
  else match a with
  | .wait ms => some { s with clock := s.clock + ms }
  | .call a => some (s.call a)
  | .wake type => some (s.record type .other)
  | .sweep =>
    if s.runner.mission.status ≠ .running then none
    else some { s with
      sweeps := s.sweeps ++ [⟨s.clock, .found s.runner.mission.started_at⟩] }
  | .read k => (s.sweeps[k]?).bind (s.sweepRead window k)
  | .nudge k delivered => (s.sweeps[k]?).bind (s.nudgeOrchestrator k · delivered)
  | .noteFailure k => (s.sweeps[k]?).bind (s.noteFailure k)
  | .giveUp k reason => (s.sweeps[k]?).bind (s.giveUp k · reason)

/-- The runs of one mission under the stall sweep; `window` is `runningStallTimeoutMs`. -/
def stallSystem (window : Int) : Transition StallState StallAction where
  init s := ∃ input, createMission input = some s.runner ∧ s.log = [] ∧ s.sweeps = []
  step s a s' := a.run window s = some s'

end WorkflowBoard.Orchestration
