import Mathlib.Data.List.Sort
import WorkflowBoard.Native.Mission

/-!
# Post-actions of a mission (`orchestration-runner.service.ts`)

When its orchestrator ends a mission, `runPostActions` walks the list of post-actions under
the mission's lock. An entry is saved as `in_flight` before the call of
`actionsService.dispatch` and settled after it, so that a crash leaves a trace: an entry that
is found `in_flight` is settled from the run it left and never dispatched again.

A step of the walk ends with a save or with the external call, and the process can die
between any two steps.
-/

namespace WorkflowBoard.Orchestration

def POST_ACTION_STALE_IN_FLIGHT_MS : Int := 2 * 60000

/-- What happens between the save as `in_flight` and the answer: the Action is missing, or
    `dispatch` is called and returns or throws, with or without a run left behind. -/
inductive LaunchFate where
  | missing (error : String)
  | returns
  | throws (leavesRun : Bool) (error : String)

def STALE_IN_FLIGHT : String :=
  "in_flight 상태로 멈춰 있었고, 상관관계 키로 조회해도 실제 생성된 ActionRun을 찾지 못했습니다 — " ++
    "디스패치 자체가 일어나지 않은 것으로 보고 재시도하지 않은 채 실패로 기록합니다."

namespace Runner

/-- Start the walk, unless the mission has no post-actions. -/
def runPostActions (r : Runner) : Runner :=
  if r.mission.post_actions = [] then r
  else
    let list := r.mission.post_actions.insertionSort fun a b => a.order ≤ b.order
    { r with post := some { list } }

/-- Save the mission with the list in memory and its pending flag. -/
def savePostActions (r : Runner) (list : List MissionPostAction) : Runner :=
  r.saveMission
    { r.mission with post_actions := list, post_actions_pending := anyUnsettled list }

/-- Put an entry back into the list in memory, save it and stand at the next one. -/
def settleEntry (r : Runner) (run : PostRun) (pa : MissionPostAction) : Runner :=
  let list := run.list.set run.index pa
  { r.savePostActions list with post := some { list, index := run.index + 1 } }

/-- The step at an entry. -/
def visitEntry (r : Runner) (run : PostRun) (pa : MissionPostAction) (now : Date) : Runner :=
  let next := { r with post := some { run with index := run.index + 1 } }
  match pa.status with
  | .in_flight =>
    let stale := pa.dispatched_at.all fun at_ => POST_ACTION_STALE_IN_FLIGHT_MS ≤ now - at_
    if !stale then next
    else
      match r.runs.reverse.find? fun x => x.action_id = pa.action_id ∧ x.order = pa.order with
      | some found =>
        r.settleEntry run { pa with status := .dispatched, run_id := some found.id, error := "" }
      | none =>
        r.settleEntry run { pa with status := .dispatch_failed, error := STALE_IN_FLIGHT }
  | .pending =>
    if !postActionApplies pa.condition r.mission.status then
      r.settleEntry run { pa with status := .skipped }
    else
      let list := run.list.set run.index
        { pa with status := .in_flight, dispatched_at := some now }
      { r.savePostActions list with post := some { run with list, phase := .launching } }
  | _ => next

/-- The step behind the save as `in_flight`. -/
def launch (r : Runner) (run : PostRun) (pa : MissionPostAction) (fate : LaunchFate) : Runner :=
  let started (leavesRun : Bool) (result : Except String Nat) : Runner :=
    { r with
      runs := if leavesRun then r.runs ++ [⟨r.runs.length, pa.action_id, pa.order⟩] else r.runs
      log := r.log ++ [.actionDispatched pa.order]
      post := some { run with phase := .launched result } }
  match fate with
  | .missing error => { r with post := some { run with phase := .launched (.error error) } }
  | .returns => started true (.ok r.runs.length)
  | .throws leavesRun error => started leavesRun (.error error)

/-- The step behind the call; `recordEvent` swallows what its writes throw. -/
def finishLaunch (r : Runner) (run : PostRun) (pa : MissionPostAction)
    (result : Except String Nat) : Runner :=
  match result with
  | .ok id =>
    r.settleEntry run { pa with status := .dispatched, run_id := some id, error := "" }
  | .error e => r.settleEntry run { pa with status := .dispatch_failed, error := sliceText 1000 e }

/-- One step of the walk; behind the last entry the lock is released. -/
def postStep (r : Runner) (now : Date) (fate : LaunchFate) : Runner :=
  match r.post with
  | none => r
  | some run =>
    match run.list[run.index]? with
    | none => { r with post := none }
    | some pa =>
      match run.phase with
      | .entry => r.visitEntry run pa now
      | .launching => r.launch run pa fate
      | .launched result => r.finishLaunch run pa result

/-- The process dies; what was saved stays. -/
def crash (r : Runner) : Runner := { r with post := none }

/-- `recoverPostActions`. -/
def recoverPostActions (r : Runner) : Runner :=
  if r.mission.status.isTerminal then r.runPostActions else r

/-- `reapPendingPostActions`: the sweep only looks at completed and failed missions. -/
def sweepPostActions (r : Runner) : Runner :=
  if r.mission.status ∈ [.completed, .failed] ∧ r.mission.post_actions_pending then
    r.recoverPostActions
  else r

end Runner

end WorkflowBoard.Orchestration
