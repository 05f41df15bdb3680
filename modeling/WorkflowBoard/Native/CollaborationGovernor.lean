import WorkflowBoard.ForStd.InsertMap
import WorkflowBoard.Native.JsString
import WorkflowBoard.Native.Json

/-!
# Children of a runtime session (`agent-manager/src/lib/runtime/collaboration-governor.ts`)

The governor admits the children that an agent's session starts. The raw input of a request comes
from the agent as JSON; the configuration has passed `normalizeRuntimeConfig`. A method that throws
leaves behind what it has changed until then, so each gives the governor beside its outcome.
-/

namespace WorkflowBoard.AgentManager

inductive ExecutionStrategy where
  | single
  | delegated
  | swarm
deriving DecidableEq

/-- What the governor reads of a configuration. -/
structure AgentRuntimeConfig where
  strategy : ExecutionStrategy
  max_children : Option Nat := none
  max_iterations : Option Nat := none
  extra : Option (List (String × Json)) := none

structure CollaborationPolicyError where
  message : String

/-! ## Which tool calls start a child -/

/-- `toLowerCase` as the pattern sees it: only these two letters and the capitals of ASCII become
    letters of ASCII. -/
def lowerMarker (c : Char) : List Char :=
  if c = '\u0130' then ['i', '\u0307'] else if c = '\u212a' then ['k'] else [c.toLower]

/-- `\w`. -/
def isWordChar (c : Char) : Bool := c.isAlphanum || c = '_'

/-- The words between which the pattern chooses. -/
def childWords : List String :=
  ["delegate", "delegation", "subagent", "sub-agent", "spawnagent", "spawn_agent", "spawn agent",
    "spawn-agent", "swarm"]

/-- Does the word stand somewhere between two boundaries `\b`? -/
def hasWord (word : List Char) (before : Option Char) : List Char → Bool
  | [] => false
  | c :: cs =>
    (!before.any isWordChar && word.isPrefixOf (c :: cs) &&
      !((c :: cs).drop word.length).head?.any isWordChar) ||
    hasWord word (some c) cs

def isChildTool (title kind : Option String) : Bool :=
  let marker := (kind.getD "" ++ " " ++ title.getD "").toList.flatMap lowerMarker
  childWords.any fun word => hasWord word.toList none marker

/-! ## Requests -/

structure ChildRequest where
  childId : String
  title : String
  depth : Int
  tools : List String
  skills : List String

/-- What is read of a tool call, or of a `child_started` event. -/
structure ChildCall where
  toolCallId : Option String := none
  childRunId : Option String := none
  title : Option String := none
  kind : Option String := none
  input : Option Json := none
  rawInput : Option Json := none
  raw_input : Option Json := none

/-- `CHILD_FORBIDDEN_TOOLS`. -/
def childForbiddenTools : List String :=
  ["move_ticket", "archive_ticket", "unarchive_ticket", "run_action"]

/-- `a ?? b`. -/
def nullishOr (a b : Option Json) : Option Json :=
  match a with
  | none => b
  | some .null => b
  | some value => some value

/-- The fields of an object; of any other value none. -/
def objectValue (value : Option Json) : List (String × Json) :=
  match value with
  | some (.obj fields) => fields
  | _ => []

/-- A string is kept, any other entry is dropped. -/
def stringEntry : Json → Option String
  | .str s => some s
  | _ => none

def strings (value : Option Json) : List String :=
  match value with
  | some (.arr items) => (((items.filterMap stringEntry).map trimText).filter (· ≠ "")).take 100
  | _ => []

/-- `Number.isInteger` is true of a number without a fraction. -/
def integer (value : Option Json) (fallback min max : Int) : Int :=
  match value with
  | some (.num x) => if x.den = 1 then Min.min max (Max.max min x.num) else fallback
  | _ => fallback

/-- The raw input of a request. -/
def ChildCall.raw (value : ChildCall) : List (String × Json) :=
  objectValue (nullishOr value.input (nullishOr value.rawInput value.raw_input))

def requestFrom (value : ChildCall) : ChildRequest :=
  let raw := value.raw
  { childId := (value.toolCallId.or value.childRunId).getD ""
    title := sliceText 240 (value.title.getD "")
    depth := integer (nullishOr (raw.lookup "depth") (raw.lookup "child_depth")) 1 1 100
    tools := strings (nullishOr (raw.lookup "tools") (raw.lookup "allowed_tools"))
    skills := strings (nullishOr (raw.lookup "skills") (raw.lookup "skill_ids")) }

namespace AgentRuntimeConfig

/-- `configuredSet`. -/
def configuredSet (config : AgentRuntimeConfig) (key : String) : List String :=
  strings ((config.extra.getD []).lookup key)

def maxChildren (config : AgentRuntimeConfig) : Nat := config.max_children.getD 3

def maxIterations (config : AgentRuntimeConfig) : Nat :=
  config.max_iterations.getD config.maxChildren

def maxConcurrency (config : AgentRuntimeConfig) : Int :=
  integer ((config.extra.getD []).lookup "max_concurrency") (min config.maxChildren 3) 1
    config.maxChildren

def maxDepth (config : AgentRuntimeConfig) : Int :=
  integer ((config.extra.getD []).lookup "max_depth") 2 1 8

end AgentRuntimeConfig

/-! ## The governor -/

structure SessionState where
  total : Nat := 0
  active : InsertMap String ChildRequest := {}

structure CollaborationGovernor where
  sessions : InsertMap String SessionState := {}

namespace CollaborationGovernor

def assertStrategy (config : AgentRuntimeConfig) (hostHealthy : Bool) :
    Except CollaborationPolicyError Unit :=
  if config.strategy = .swarm ∧ hostHealthy = false then
    .error ⟨"Swarm requires a healthy Hermes ACP capability probe"⟩
  else
    match (config.configuredSet "allowed_child_tools").find? (childForbiddenTools.contains ·) with
    | some forbidden => .error ⟨s!"Child tool {forbidden} can perform a terminal ticket action"⟩
    | none => .ok ()

/-- The session's state; of a session that has none yet, an empty one. -/
def session (g : CollaborationGovernor) (sessionKey : String) : SessionState :=
  (g.sessions.get sessionKey).getD {}

def reserve (g : CollaborationGovernor) (sessionKey : String) (config : AgentRuntimeConfig)
    (request : ChildRequest) (hostHealthy : Bool) :
    Except CollaborationPolicyError ChildRequest × CollaborationGovernor :=
  if config.strategy = .single then
    (.error ⟨"The single strategy forbids runtime child creation"⟩, g)
  else
    match assertStrategy config hostHealthy with
    | .error e => (.error e, g)
    | .ok () =>
      let state := g.session sessionKey
      match state.active.get request.childId with
      | some duplicate => (.ok duplicate, g)
      | none =>
        if config.maxDepth < request.depth then
          (.error ⟨s!"Child depth {request.depth} exceeds max_depth {config.maxDepth}"⟩, g)
        else if config.maxConcurrency ≤ state.active.size then
          (.error ⟨s!"Child concurrency exceeds max_concurrency {config.maxConcurrency}"⟩, g)
        else if config.maxChildren ≤ state.total then
          (.error ⟨s!"Child budget exceeds max_children {config.maxChildren}"⟩, g)
        else if config.maxIterations ≤ state.total then
          (.error ⟨s!"Delegation loop exceeds max_iterations {config.maxIterations}"⟩, g)
        else if request.tools.any fun tool =>
            !(config.configuredSet "allowed_child_tools").contains tool then
          (.error ⟨"Child requested a tool outside allowed_child_tools"⟩, g)
        else if request.tools.any fun tool => childForbiddenTools.contains tool then
          (.error ⟨"Children cannot perform terminal ticket transitions"⟩, g)
        else if request.skills.any fun skill =>
            !(config.configuredSet "allowed_child_skills").contains skill then
          (.error ⟨"Child requested a skill outside allowed_child_skills"⟩, g)
        else
          let state : SessionState :=
            { total := state.total + 1, active := state.active.set request.childId request }
          (.ok request, { g with sessions := g.sessions.set sessionKey state })

/-- A permission request for a tool call that starts no child, or for none, passes as `null`. -/
def reservePermission (g : CollaborationGovernor) (sessionKey : String)
    (config : AgentRuntimeConfig) (toolCall : Option ChildCall) (hostHealthy : Bool) :
    Except CollaborationPolicyError (Option ChildRequest) × CollaborationGovernor :=
  match toolCall with
  | none => (.ok none, g)
  | some toolCall =>
    if !isChildTool toolCall.title toolCall.kind then (.ok none, g)
    else
      let (outcome, g') := g.reserve sessionKey config (requestFrom toolCall) hostHealthy
      (outcome.map some, g')

def observeStarted (g : CollaborationGovernor) (sessionKey : String)
    (config : AgentRuntimeConfig) (event : ChildCall) (hostHealthy : Bool) :
    Except CollaborationPolicyError ChildRequest × CollaborationGovernor :=
  g.reserve sessionKey config (requestFrom event) hostHealthy

def finish (g : CollaborationGovernor) (sessionKey childId : String) : CollaborationGovernor :=
  match g.sessions.get sessionKey with
  | none => g
  | some state =>
    { g with
      sessions := g.sessions.set sessionKey { state with active := state.active.delete childId } }

def clear (g : CollaborationGovernor) (sessionKey : String) : CollaborationGovernor :=
  { g with sessions := g.sessions.delete sessionKey }

end CollaborationGovernor

/-! ## Calls -/

inductive CollaborationMethod where
  | reservePermission (toolCall : Option ChildCall) (hostHealthy : Bool)
  | observeStarted (event : ChildCall) (hostHealthy : Bool)
  | finish (childId : String)
  | clear

/-- A call for a session. -/
structure CollaborationCall where
  sessionKey : String
  method : CollaborationMethod

/-- The call, with the configuration of its session; `none` where it has no outcome. -/
def CollaborationGovernor.act (config : String → AgentRuntimeConfig) (g : CollaborationGovernor)
    (call : CollaborationCall) :
    Option (Except CollaborationPolicyError (Option ChildRequest)) × CollaborationGovernor :=
  match call.method with
  | .reservePermission toolCall hostHealthy =>
    let reserved :=
      g.reservePermission call.sessionKey (config call.sessionKey) toolCall hostHealthy
    (some reserved.1, reserved.2)
  | .observeStarted event hostHealthy =>
    let reserved := g.observeStarted call.sessionKey (config call.sessionKey) event hostHealthy
    (some (reserved.1.map some), reserved.2)
  | .finish childId => (none, g.finish call.sessionKey childId)
  | .clear => (none, g.clear call.sessionKey)

end WorkflowBoard.AgentManager
