import WorkflowBoard.ForStd.Except
import WorkflowBoard.Native.JsString

/-!
# Rosters of a mission (`modules/orchestration/orchestration-roster.ts`)

The slots of a team, placed in the project folders of their hosts: `resolveMissionRoster`
builds the roster a mission runs with, `resolveStepAssignment` finds the runtime a step is
assigned to. Host and project names, capabilities and the model settings of a slot only
reach prompts and are left out.
-/

namespace WorkflowBoard.Orchestration

/-- `TeamSlotSpec`: what of a slot decides where and as whom it runs. -/
structure TeamSlotSpec where
  manager_agent_id : String
  cli : String
  credential_id : String := ""
deriving DecidableEq

inductive MemberFolderScope where
  | shared
  | isolated
deriving DecidableEq

/-- A slot placed in a folder. -/
structure TeamAgentSpec extends TeamSlotSpec where
  working_dir : String
  folder_scope : MemberFolderScope
deriving DecidableEq

/-- `runtimeIdentityKey`; the digest is taken to tell different inputs apart, and only ASCII letters
    of the CLI's name are lowered. -/
def runtimeIdentityKey (spec : TeamAgentSpec) : String :=
  "rt-" ++ (trimText spec.cli).toLower ++ "\x00" ++ trimText spec.working_dir ++ "\x00" ++
    trimText spec.credential_id

structure RosterSlot where
  slot_id : String
  name : String
  max_concurrent : Nat
  spec : TeamSlotSpec
deriving DecidableEq

structure MissionRuntime where
  slot_id : String
  project_id : String
  agent_id : String
  spec : TeamAgentSpec
deriving DecidableEq

structure MissionRuntimeRoster where
  folder_scope : MemberFolderScope
  orchestrator : RosterSlot
  members : List RosterSlot
  runtimes : List MissionRuntime
deriving DecidableEq

/-- A project the mission names, with its folder on each host that has one. -/
structure MissionProject where
  id : String
  name : String
  host_folders : List (String × String)

def ORCHESTRATOR_SLOT_ID : String := "orchestrator"

/-- The folder of a project on a host; an empty one counts as none. Folders are absolute. -/
def projectFolderForHost (p : MissionProject) (host : String) : Option String :=
  if host = "" then none
  else ((p.host_folders.find? (·.1 = host)).map (·.2)).filter (· ≠ "")

def runtimeFor (slot : RosterSlot) (p : MissionProject) (folder : String)
    (scope : MemberFolderScope) : MissionRuntime :=
  let spec := { slot.spec with working_dir := trimText folder, folder_scope := scope }
  { slot_id := slot.slot_id, project_id := p.id, agent_id := runtimeIdentityKey spec, spec }

/-- The runtimes of a slot, one for each project with a folder on its host. -/
def runtimesOf (slot : RosterSlot) (projects : List MissionProject) (scope : MemberFolderScope) :
    List MissionRuntime :=
  projects.filterMap fun p =>
    (projectFolderForHost p slot.spec.manager_agent_id).map fun folder =>
      runtimeFor slot p folder scope

/-- The orchestrator works in one folder only: that of the preferred identity or the first. -/
def orchestratorRuntimeFor (orchestrator : RosterSlot) (projects : List MissionProject)
    (preferred : Option String) : Option MissionRuntime :=
  let runtimes := runtimesOf orchestrator projects .shared
  (runtimes.find? fun run => preferred.any fun id => id ≠ "" ∧ run.agent_id = id).or runtimes.head?

/-- The roster, or `none` where the source lists the problems of the team. -/
def resolveMissionRoster (orchestrator : RosterSlot) (members : List RosterSlot)
    (projects : List MissionProject) (folderScope : MemberFolderScope)
    (preferOrchestratorIdentity : Option String) : Option MissionRuntimeRoster :=
  match orchestratorRuntimeFor orchestrator projects preferOrchestratorIdentity with
  | none => none
  | some own =>
    if members.any fun slot => runtimesOf slot projects folderScope = [] then none
    else some
      { folder_scope := folderScope, orchestrator, members
        runtimes := own :: members.flatMap (runtimesOf · projects folderScope) }

def orchestratorRuntime (roster : MissionRuntimeRoster) : Option MissionRuntime :=
  roster.runtimes.find? (·.slot_id = ORCHESTRATOR_SLOT_ID)

def runtimesForSlot (roster : MissionRuntimeRoster) (slotId : String) : List MissionRuntime :=
  roster.runtimes.filter fun run => run.slot_id = slotId ∧ slotId ≠ ORCHESTRATOR_SLOT_ID

/-- `keepOrchestratorRuntime`: a reopened mission keeps the folder its orchestrator began in. -/
def keepOrchestratorRuntime (roster : MissionRuntimeRoster) (spec : Option TeamAgentSpec) :
    MissionRuntimeRoster :=
  match spec, orchestratorRuntime roster with
  | some spec, some current =>
    let kept : MissionRuntime :=
      { slot_id := ORCHESTRATOR_SLOT_ID, project_id := current.project_id
        agent_id := runtimeIdentityKey spec, spec }
    { roster with
      runtimes := kept :: roster.runtimes.filter (·.slot_id ≠ ORCHESTRATOR_SLOT_ID) }
  | _, _ => roster

/-! ## Shared folders -/

/-- `trimFolder`: without the separators at the end. -/
def trimFolder (path : String) : String :=
  String.ofList ((path.toList.reverse.dropWhile fun c => c = '/' ∨ c = '\\').reverse)

/-- The folders of the members, with their hosts. -/
def memberFolders (roster : MissionRuntimeRoster) : List (String × String) :=
  ((roster.runtimes.filter (·.slot_id ≠ ORCHESTRATOR_SLOT_ID)).map fun run =>
    (run.spec.manager_agent_id, trimFolder run.spec.working_dir)).eraseDups

/-- Whether another roster with shared folders has a folder of this one. -/
def sharedFolderConflict (roster : MissionRuntimeRoster) (others : List MissionRuntimeRoster) :
    Bool :=
  roster.folder_scope = .shared &&
    others.any fun other =>
      other.folder_scope = .shared && (memberFolders roster).any (· ∈ memberFolders other)

/-! ## Assignments -/

/-- A project of the mission as an assignment sees it. -/
structure ProjectName where
  id : String
  name : String
deriving DecidableEq

/-- The project of an id, or the only one with the name. Only ASCII letters are lowered. -/
def projectNamed (projects : List ProjectName) (named : String) : Option String :=
  match projects.find? (·.id = named) with
  | some p => some p.id
  | none =>
    match projects.filter (·.name.toLower = named.toLower) with
    | [p] => some p.id
    | _ => none

/-- The slot a name stands for: a slot id, or the identity of exactly one slot. With the
    identity of one runtime comes its project. -/
def slotNamed (roster : MissionRuntimeRoster) (wanted : String) :
    Option (RosterSlot × Option String) :=
  match roster.members.find? (·.slot_id = wanted) with
  | some slot => some (slot, none)
  | none =>
    if wanted = "" then none
    else
      let byIdentity := roster.runtimes.filter fun run =>
        run.agent_id = wanted ∧ run.slot_id ≠ ORCHESTRATOR_SLOT_ID
      match (byIdentity.map (·.slot_id)).eraseDups with
      | [slotId] =>
        (roster.members.find? (·.slot_id = slotId)).map fun slot =>
          (slot, match byIdentity with
            | [run] => some run.project_id
            | _ => none)
      | _ => none

/-- `resolveStepAssignment`, without the texts of its errors. -/
def resolveStepAssignment (roster : MissionRuntimeRoster) (projects : List ProjectName)
    (slot : String) (project : Option String) : Option (RosterSlot × MissionRuntime) := do
  let (slot, impliedProject) ← slotNamed roster (trimText slot)
  let options := runtimesForSlot roster slot.slot_id
  let named := trimText (project.getD "")
  let projectId ←
    if named ≠ "" then projectNamed projects named
    else match impliedProject with
      | some id => some id
      | none =>
        match options with
        | [only] => some only.project_id
        | _ => none
  let runtime ← options.find? (·.project_id = projectId)
  return (slot, runtime)

end WorkflowBoard.Orchestration
