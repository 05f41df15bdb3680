import WorkflowBoard.Native.MissionRunner

/-!
# Missions that share folders (`startMission`, `reopenMission`, `assertNoSharedFolderConflict`)

Any number of missions, each behind its own lock. A start or a reopening reads the rosters of
the missions that are active, in one statement, and writes its own status only when its hosts
have prepared the runtimes; the calls on other missions go on in between. The checks are those
of the runner, `StartView.others` being what the statement has read.

A mission whose start or reopening is under way takes no other call. Of the calls on a draft
only those are here that end it, pause it or edit it: the others leave it a draft.
-/

namespace WorkflowBoard.Orchestration

/-- A start or a reopening behind its checks. `saved` tells whether its roster is. -/
inductive LifeCall where
  | starting (roster : MissionRuntimeRoster) (orchestrator : MissionRuntime) (room : String)
      (saved : Bool)
  /-- The mission is in planning, and its orchestrator is not briefed yet. -/
  | briefing
  /-- `previous` is put back where the hosts fail. -/
  | reopening (roster previous : Option MissionRuntimeRoster) (saved : Bool)

/-- A mission, with the start or the reopening that holds its lock. -/
structure LockedMission where
  runner : Runner
  call : Option LifeCall := none

namespace LockedMission

def mission (x : LockedMission) : Mission := x.runner.mission

/-- The call goes on with the mission as it has saved it. -/
def save (x : LockedMission) (m : Mission) (call : Option LifeCall) : LockedMission :=
  ⟨x.runner.saveMission m, call⟩

/-- The roster is saved before the runtimes are prepared. -/
def saveRoster (x : LockedMission) : Option LockedMission :=
  let m := x.mission
  match x.call with
  | some (.starting roster orchestrator room false) =>
    some (x.save { m with runtime_roster := some roster }
      (some (.starting roster orchestrator room true)))
  | some (.reopening roster previous false) =>
    some (x.save { m with runtime_roster := roster.or m.runtime_roster }
      (some (.reopening roster previous true)))
  | _ => none

/-- `prepareRuntimes` throws. -/
def prepareFails (x : LockedMission) : Option LockedMission :=
  let m := x.mission
  match x.call with
  | some (.starting _ _ _ true) => some (x.save { m with runtime_roster := none } none)
  | some (.reopening roster previous true) =>
    some (x.save { m with
      runtime_roster := if roster.isSome then previous else m.runtime_roster } none)
  | _ => none

/-- The status is written. -/
def activate (x : LockedMission) (now : Date) : Option LockedMission :=
  let m := x.mission
  match x.call with
  | some (.starting _ orchestrator room true) =>
    some (x.save { m with
      room_id := some room, orchestrator_agent_id := some orchestrator.agent_id
      orchestrator_spec := some orchestrator.spec, status := .planning
      started_at := some now } (some .briefing))
  | some (.reopening _ _ true) =>
    some ⟨(x.runner.saveMission { m with
      status := .running, finished_at := none, failure_reason := "" }).record [.reopened], none⟩
  | _ => none

/-- The briefing cannot be posted: the mission is a draft again. -/
def briefFails (x : LockedMission) : Option LockedMission :=
  match x.call with
  | some .briefing =>
    some (x.save { x.mission with
      status := .draft, room_id := none, started_at := none, runtime_roster := none } none)
  | _ => none

/-- The call returns, or throws where it puts nothing back. -/
def returns (x : LockedMission) : Option LockedMission :=
  if x.call.isSome then some { x with call := none } else none

/-- Whether the lock is free for a call. -/
def free (x : LockedMission) (locks : Bool) : Bool :=
  x.call.isNone && (!locks || x.runner.post.isNone)

/-- The other calls of the runner. -/
def mayCall (x : LockedMission) (a : Action) : Bool :=
  x.free a.locks && match a with
    | .startMission _ | .reopenMission .. => false
    | .updateMission _ | .pauseMission | .cancelMission _ | .completeMission .. => true
    | _ => x.mission.status ≠ .draft

end LockedMission

structure Missions where
  rows : List LockedMission := []

namespace Missions

/-- The rosters `assertNoSharedFolderConflict` reads for mission `k`. -/
def activeRosters (s : Missions) (k : Nat) : List MissionRuntimeRoster :=
  ((s.rows.eraseIdx k).filter (·.mission.status ∈ [.planning, .running, .paused])).filterMap
    (·.mission.runtime_roster)

/-- What a start or a reopening of mission `k` finds. -/
def view (s : Missions) (k : Nat) (v : StartView) : StartView :=
  { v with others := s.activeRosters k }

def set (s : Missions) (k : Nat) (x : LockedMission) : Missions :=
  { s with rows := s.rows.set k x }

/-- Who may reopen. -/
def mayReopen (m : Mission) (agent : Option OrchestrationCaller) : Except Refusal Unit := do
  match agent with
  | some caller => requireOrchestrator m caller
  | none => .ok ()
  require m.status.isTerminal (.missionIs m.status)

/-- The checks of a start. -/
def start (s : Missions) (k : Nat) (v : StartView) (x : LockedMission) : Option Missions :=
  if !x.free true then none
  else match Runner.startChecks x.mission (s.view k v) with
    | .error _ => some s
    | .ok (roster, orchestrator) =>
      some (s.set k { x with call := some (.starting roster orchestrator v.room false) })

/-- The checks of a reopening; a mission without a room is a draft again at once. -/
def reopen (s : Missions) (k : Nat) (agent : Option OrchestrationCaller) (v : StartView)
    (x : LockedMission) : Option Missions :=
  let m := x.mission
  if !x.free true then none
  else match mayReopen m agent with
    | .error _ => some s
    | .ok _ =>
      if m.room_id.all (· = "") then
        some (s.set k { x with runner := (x.runner.saveMission { m with
          status := .draft, finished_at := none, failure_reason := "" }).record [.reopened] })
      else match Runner.reopenChecks m (s.view k v) with
        | .error _ => some s
        | .ok roster =>
          some (s.set k { x with call := some (.reopening roster m.runtime_roster false) })

end Missions

inductive MissionsAction where
  | create (input : MissionInput)
  | start (k : Nat) (v : StartView)
  | reopen (k : Nat) (agent : Option OrchestrationCaller) (v : StartView)
  | saveRoster (k : Nat)
  | prepareFails (k : Nat)
  | activate (k : Nat) (now : Date)
  | briefFails (k : Nat)
  | returns (k : Nat)
  /-- Another call of the runner on mission `k`: its ends, pauses, plans and edits. -/
  | call (k : Nat) (now : Date) (a : Action)

/-- One step, if there is one. -/
def MissionsAction.run (s : Missions) : MissionsAction → Option Missions
  | create input =>
    (createMission input).map fun r => { s with rows := s.rows ++ [{ runner := r }] }
  | start k v => (s.rows[k]?).bind (s.start k v)
  | reopen k agent v => (s.rows[k]?).bind (s.reopen k agent v)
  | saveRoster k => (s.rows[k]?).bind fun x => x.saveRoster.map (s.set k)
  | prepareFails k => (s.rows[k]?).bind fun x => x.prepareFails.map (s.set k)
  | activate k now => (s.rows[k]?).bind fun x => (x.activate now).map (s.set k)
  | briefFails k => (s.rows[k]?).bind fun x => x.briefFails.map (s.set k)
  | returns k => (s.rows[k]?).bind fun x => x.returns.map (s.set k)
  | call k now a => (s.rows[k]?).bind fun x =>
    if x.mayCall a then some (s.set k { x with runner := (a.run now x.runner).runner }) else none

/-- The runs of any number of missions. -/
def missionsSystem : Transition Missions MissionsAction where
  init s := s = {}
  step s a s' := a.run s = some s'

end WorkflowBoard.Orchestration
