import WorkflowBoard.Native.Plan

/-!
# Execution graphs of a mission (`modules/orchestration/orchestration-graph.ts`)

A graph mission runs its steps along edges with conditions instead of plain dependencies. A
graph is validated against the step keys of the plan (`validateGraphSpec`), a finished step
decides its outgoing edges (`evaluateEdge`), and a `loop_back` edge that is taken sends the
nodes of its loop back for another visit (`loopBodyNodes`).

The numbers of a request are whole numbers here; the reasons `evaluateEdge` words for the
timeline and the notes of a patch change are left out.
-/

namespace WorkflowBoard.Orchestration

/-! ## Graphs -/

inductive ConfirmPolicy where
  | none
  | auto
  | key_steps
  | every_step
deriving DecidableEq

inductive GraphNodeKind where
  | task
  | evaluator
  | router
  | confirm
deriving DecidableEq

inductive GraphEdgeKind where
  | sequence
  | conditional
  | loop_back
deriving DecidableEq

inductive JoinPolicy where
  | all
  | any
deriving DecidableEq

/-- The status as the database holds it. -/
def StepStatus.text : StepStatus → String
  | pending => "pending"
  | ready => "ready"
  | dispatched => "dispatched"
  | running => "running"
  | done => "done"
  | failed => "failed"
  | blocked => "blocked"
  | skipped => "skipped"
  | cancelled => "cancelled"
  | needs_recovery => "needs_recovery"
  | awaiting_user => "awaiting_user"

def GraphNodeKind.text : GraphNodeKind → String
  | task => "task"
  | evaluator => "evaluator"
  | router => "router"
  | confirm => "confirm"

def GraphEdgeKind.text : GraphEdgeKind → String
  | sequence => "sequence"
  | conditional => "conditional"
  | loop_back => "loop_back"

def JoinPolicy.text : JoinPolicy → String
  | all => "all"
  | any => "any"

def GRAPH_NODE_KINDS : List GraphNodeKind := [.task, .evaluator, .router, .confirm]

def GRAPH_EDGE_KINDS : List GraphEdgeKind := [.sequence, .conditional, .loop_back]

def JOIN_POLICIES : List JoinPolicy := [.all, .any]

def MAX_NODE_VISITS_CEILING : Int := 25

def MAX_TOTAL_VISITS_CEILING : Int := 500

def MIN_LOOP_MAX_VISITS : Nat := 2

/-- A status list, a verdict list or both; an absent list allows everything. -/
structure EdgeCondition where
  status : Option (List String) := none
  verdict : Option (List String) := none
deriving DecidableEq

structure GraphNode where
  key : String
  kind : GraphNodeKind
  join : JoinPolicy
  max_visits : Nat
deriving DecidableEq

structure GraphEdge where
  source : String
  target : String
  kind : GraphEdgeKind
  condition : Option EdgeCondition := none
  label : String := ""
deriving DecidableEq

structure GraphSpec where
  nodes : List GraphNode
  edges : List GraphEdge
  entry : List String
  terminal : List String
  max_total_visits : Nat
deriving DecidableEq

structure GraphNodeInput where
  key : String
  kind : Option String := none
  join : Option String := none
  max_visits : Option Int := none
deriving DecidableEq

structure GraphEdgeInput where
  source : String
  target : String
  kind : Option String := none
  condition : Option EdgeCondition := none
  label : String := ""

structure GraphSpecInput where
  version : Int := 1
  nodes : List GraphNodeInput := []
  edges : List GraphEdgeInput := []
  max_total_visits : Option Int := none

/-! ## `validateGraphSpec` -/

/-- The values of a condition list: trimmed, without empty ones and each once. -/
def conditionList (normal : String → String) (list : Option (List String)) : List String :=
  (((list.getD []).map fun s => normal (trimText s)).filter (· ≠ "")).eraseDups

def normalizeCondition (raw : Option EdgeCondition) : Option EdgeCondition :=
  match raw with
  | none => none
  | some src =>
    let status := conditionList id src.status
    let verdict := conditionList String.toLower src.verdict
    if status = [] ∧ verdict = [] then none
    else some
      { status := if status = [] then none else some status
        verdict := if verdict = [] then none else some verdict }

/-- The targets the walk has not seen, each once. -/
def freshTargets (edges : List GraphEdge) (seen : List String) (cur : String) : List String :=
  (((edges.filter (·.source = cur)).map (·.target)).filter (· ∉ seen)).eraseDups

/-- The walk of `reachableVia`; every turn but the first pops the target of some edge. -/
def reachGo (edges : List GraphEdge) : Nat → List String → List String → List String
  | 0, seen, _ => seen
  | _ + 1, seen, [] => seen
  | fuel + 1, seen, cur :: stack =>
    let fresh := freshTargets edges seen cur
    reachGo edges fuel (seen ++ fresh) (fresh.reverse ++ stack)

/-- The nodes that can be reached, in the order they are seen. -/
def reachableVia (edges : List GraphEdge) (start : String) (includeLoopBack : Bool) :
    List String :=
  let edges := edges.filter fun e => includeLoopBack || e.kind ≠ .loop_back
  reachGo edges (edges.length + 1) [start] [start]

/-- The nodes on a path from the loop's target to its source. -/
def loopBodyNodes (edges : List GraphEdge) (loop : GraphEdge) : List String :=
  let reversed := (edges.filter (·.kind ≠ .loop_back)).map fun e =>
    { e with source := e.target, target := e.source }
  let canReachSource := reachableVia reversed loop.source false
  (reachableVia edges loop.target false).filter (· ∈ canReachSource)

def checkNode (planKeys : List String) (seen : List GraphNode) (raw : GraphNodeInput) :
    Except String GraphNode := do
  let rawKey := raw.key
  let key := trimText raw.key
  require (isStepKey key) s!"invalid graph node key \"{rawKey}\" — must match the step_key format"
  require (key ∈ planKeys) s!"graph node \"{key}\" does not match any step in the plan"
  require (!seen.any (·.key = key)) s!"duplicate graph node \"{key}\""
  let rawKind := raw.kind.getD "undefined"
  let kind ← orThrow
    (GRAPH_NODE_KINDS.find? (·.text = trimText (raw.kind.getD "task")))
    (s!"graph node \"{key}\" has unknown kind \"{rawKind}\" — use one of " ++
      "task, evaluator, router, confirm")
  let rawJoin := raw.join.getD "undefined"
  let join ← orThrow
    (JOIN_POLICIES.find? (·.text = trimText (raw.join.getD "all")))
    s!"graph node \"{key}\" has unknown join policy \"{rawJoin}\" — use one of all, any"
  let maxVisits := raw.max_visits.getD 1
  require (0 < maxVisits && maxVisits ≤ MAX_NODE_VISITS_CEILING)
    (s!"graph node \"{key}\" has invalid max_visits {maxVisits} — " ++
      s!"must be a whole number between 1 and {MAX_NODE_VISITS_CEILING}")
  return { key, kind, join, max_visits := maxVisits.toNat }

/-- The loop over the given nodes. -/
def checkNodes (planKeys : List String) :
    List GraphNode → List GraphNodeInput → Except String (List GraphNode)
  | seen, [] => .ok seen
  | seen, raw :: rest => do
    let node ← checkNode planKeys seen raw
    checkNodes planKeys (seen ++ [node]) rest

/-- A step without a node of its own is a task. -/
def fillNode (nodes : List GraphNode) (key : String) : List GraphNode :=
  if nodes.any (·.key = key) then nodes
  else nodes ++ [{ key, kind := .task, join := .all, max_visits := 1 }]

def checkEdge (nodes : List GraphNode) (seen : List GraphEdge) (raw : GraphEdgeInput) :
    Except String GraphEdge := do
  let rawSource := raw.source
  let rawTarget := raw.target
  let source := trimText raw.source
  let target := trimText raw.target
  require (nodes.any (·.key = source))
    s!"graph edge references unknown node \"{rawSource}\" as its source"
  require (nodes.any (·.key = target))
    s!"graph edge references unknown node \"{rawTarget}\" as its target"
  require (source ≠ target)
    s!"graph edge \"{source}\" → \"{target}\" is a self-edge — a node cannot depend on itself"
  let rawKind := raw.kind.getD "undefined"
  let kind ← orThrow
    (GRAPH_EDGE_KINDS.find? (·.text = trimText (raw.kind.getD "sequence")))
    (s!"graph edge \"{source}\" → \"{target}\" has unknown kind \"{rawKind}\" — use one of " ++
      "sequence, conditional, loop_back")
  let kindText := kind.text
  require (!seen.any fun e => e.source = source ∧ e.target = target ∧ e.kind = kind)
    s!"duplicate graph edge \"{source}\" → \"{target}\" ({kindText})"
  let condition := normalizeCondition raw.condition
  require (kind ≠ .conditional || condition.isSome)
    (s!"conditional edge \"{source}\" → \"{target}\" has no \"when\" condition — " ++
      "give it a status and/or verdict list, or make it a sequence edge")
  require (kind ≠ .loop_back || condition.isSome)
    (s!"loop_back edge \"{source}\" → \"{target}\" has no \"when\" condition. A loop without an " ++
      "explicit termination condition can never stop — declare when the loop should re-enter " ++
      "(e.g. \x7b verdict: [\"revise\"] \x7d).")
  return { source, target, kind, condition, label := sliceText 120 (trimText raw.label) }

/-- The loop over the given edges. -/
def checkEdges (nodes : List GraphNode) :
    List GraphEdge → List GraphEdgeInput → Except String (List GraphEdge)
  | seen, [] => .ok seen
  | seen, raw :: rest => do
    let edge ← checkEdge nodes seen raw
    checkEdges nodes (seen ++ [edge]) rest

def nodeOf (nodes : List GraphNode) (key : String) : Option GraphNode :=
  nodes.find? (·.key = key)

def maxVisitsOf (nodes : List GraphNode) (key : String) : Nat :=
  match nodeOf nodes key with
  | some n => n.max_visits
  | none => 0

def checkLoop (nodes : List GraphNode) (edges : List GraphEdge) (loop : GraphEdge) :
    Except String Unit := do
  let source := loop.source
  let target := loop.target
  let cap := maxVisitsOf nodes target
  require (source ∈ reachableVia edges target false)
    (s!"loop_back edge \"{source}\" → \"{target}\" does not close a loop — " ++
      s!"\"{target}\" cannot reach \"{source}\" through the graph. Use a conditional edge instead.")
  require (MIN_LOOP_MAX_VISITS ≤ cap)
    (s!"loop_back edge \"{source}\" → \"{target}\" needs node \"{target}\" to declare " ++
      s!"max_visits >= {MIN_LOOP_MAX_VISITS} (it is {cap}). Without a finite iteration " ++
      "cap the loop has no hard stop.")

/-- The nodes of a loop may be visited as often as its target. -/
def raiseCaps (edges : List GraphEdge) (nodes : List GraphNode) (loop : GraphEdge) :
    List GraphNode :=
  let cap := maxVisitsOf nodes loop.target
  let body := loopBodyNodes edges loop
  nodes.map fun n =>
    if n.key ∈ body ∧ n.max_visits < cap then { n with max_visits := cap } else n

def verdictsOf (e : GraphEdge) : List String :=
  (e.condition.bind (·.verdict)).getD []

/-- What a node's kind asks of its outgoing edges. -/
def checkKind (confirmPolicy : ConfirmPolicy) (edges : List GraphEdge) (node : GraphNode) :
    Except String Unit := do
  let key := node.key
  let outgoing := edges.filter (·.source = key)
  match node.kind with
  | .task => return
  | .router =>
    let count := outgoing.length
    require (2 ≤ count)
      (s!"router node \"{key}\" has {count} outgoing edge(s) — a router must choose " ++
        "between at least 2.")
    let unconditional := ", ".intercalate
      ((outgoing.filter (·.condition = none)).map fun e => "\"" ++ e.target ++ "\"")
    require (outgoing.all (·.condition ≠ none))
      (s!"router node \"{key}\" has unconditional outgoing edge(s) to {unconditional} — every " ++
        "edge out of a router must have a \"when\" condition, otherwise the branch it picks is " ++
        "meaningless.")
  | .evaluator =>
    require (outgoing.any (verdictsOf · ≠ []))
      (s!"evaluator node \"{key}\" has no outgoing edge that branches on a verdict — add at " ++
        "least one edge with \x7b when: \x7b verdict: [...] \x7d \x7d or make it a task node.")
  | .confirm =>
    require (confirmPolicy ≠ .none)
      (s!"graph node \"{key}\" is a confirm node, but this mission's confirm_policy is \"none\" " ++
        "— user confirmation gates are not allowed here. Make it a task/evaluator node, or " ++
        "change the mission's confirm_policy before planning.")
    let passEdges := outgoing.filter ("pass" ∈ verdictsOf ·)
    let failEdges := outgoing.filter ("fail" ∈ verdictsOf ·)
    let first := if passEdges = [] then "pass" else "fail"
    let missing := " or ".intercalate
      ((if passEdges = [] then ["\"pass\""] else []) ++ if failEdges = [] then ["\"fail\""] else [])
    require (passEdges ≠ [] && failEdges ≠ [])
      (s!"confirm node \"{key}\" has no outgoing edge for verdict {missing} — a user " ++
        "confirmation must route BOTH answers. Add an edge with \x7b when: \x7b verdict: [\"" ++
        first ++ "\"] \x7d \x7d (a loop_back counts, and is the usual way to route \"fail\").")
    refuseIf (outgoing.find? fun e => "pass" ∈ verdictsOf e ∧ "fail" ∈ verdictsOf e) fun e =>
      let target := e.target
      s!"confirm node \"{key}\" has an edge to \"{target}\" whose condition matches BOTH " ++
        "\"pass\" and \"fail\" — the two answers would take the same edge, so asking the person " ++
        "changes nothing. Split it into one edge with \x7b when: \x7b verdict: [\"pass\"] \x7d " ++
        "\x7d and another with \x7b when: \x7b verdict: [\"fail\"] \x7d \x7d."
    refuseIf ((failEdges.map (·.target)).find? (· ∈ passEdges.map (·.target))) fun target =>
      s!"confirm node \"{key}\" routes both \"pass\" and \"fail\" to \"{target}\" — that node " ++
        "runs whatever the person decides, so the confirmation has no effect on it. Send the " ++
        "two answers to different nodes (the usual shape is pass → the next step, fail → a " ++
        "loop_back to the work that must be redone); if something must happen either way, put " ++
        "it downstream of both with join=\"any\"."

/-- The edges that are not `loop_back`, as pairs of keys. -/
def forwardPairs (edges : List GraphEdge) : List (String × String) :=
  (edges.filter (·.kind ≠ .loop_back)).map fun e => (e.source, e.target)

/-- The budget of node runs, given or the number of nodes. -/
def checkBudget (given : Option Int) (nodeCount loopCount : Nat) : Except String Nat := do
  require (given.isSome || loopCount = 0)
    (s!"graph declares {loopCount} loop_back edge(s) but no max_total_visits budget. " ++
      "A bounded loop needs a mission-wide hard cap on total node executions.")
  let maxTotalVisits := given.getD nodeCount
  require (0 < maxTotalVisits && maxTotalVisits ≤ MAX_TOTAL_VISITS_CEILING)
    (s!"invalid max_total_visits {maxTotalVisits} — must be a whole number between 1 and " ++
      s!"{MAX_TOTAL_VISITS_CEILING}")
  require (nodeCount ≤ maxTotalVisits)
    (s!"max_total_visits {maxTotalVisits} is below the {nodeCount} node(s) in the graph — " ++
      "the mission could never run every node once")
  return maxTotalVisits.toNat

def validateGraphSpec (input : GraphSpecInput) (nodeKeys : List String)
    (confirmPolicy : ConfirmPolicy) : Except String GraphSpec := do
  let version := input.version
  require (version = 1)
    s!"unsupported graph version {version} — this server implements GraphSpec v1"
  require (nodeKeys ≠ []) "graph needs at least one node"
  let given ← checkNodes nodeKeys [] input.nodes
  let nodes := nodeKeys.foldl fillNode given
  let edges ← checkEdges nodes [] input.edges
  let keys := nodes.map (·.key)
  let order := KahnQueue.order keys (forwardPairs edges)
  let stuck := ", ".intercalate (keys.filter (· ∉ order))
  require (order.length = keys.length)
    (s!"graph contains a cycle through non-loop_back edges involving: {stuck}. " ++
      "Only edges explicitly declared kind=\"loop_back\" may close a cycle.")
  let loops := edges.filter (·.kind = .loop_back)
  loops.forM (checkLoop nodes edges)
  let maxTotalVisits ← checkBudget input.max_total_visits nodes.length loops.length
  let nodes := loops.foldl (raiseCaps edges) nodes
  let entry := keys.filter fun k => !edges.any fun e => e.kind ≠ .loop_back ∧ e.target = k
  let terminal := keys.filter fun k => !edges.any (·.source = k)
  require (entry ≠ []) "graph has no entry node — every node has an incoming dependency"
  let orphans := keys.filter fun k => !entry.any fun start => k ∈ reachableVia edges start true
  let orphanText := ", ".intercalate orphans
  require (orphans = [])
    (s!"graph node(s) {orphanText} cannot be reached from any entry node — " ++
      "they would never run (deadlock). Connect them or remove them.")
  nodes.forM (checkKind confirmPolicy edges)
  return {
    nodes := order.filterMap (nodeOf nodes), edges, entry, terminal
    max_total_visits := maxTotalVisits }

/-! ## The pure evaluator -/

structure GraphNodeState where
  key : String
  status : StepStatus
  visit : Nat
  verdict : String

inductive EdgeState where
  | satisfied
  | pending
  | dead
deriving DecidableEq

/-- The part of `evaluateEdge` for a terminal source and a condition. -/
def evaluateCondition (c : EdgeCondition) (source : GraphNodeState) : EdgeState :=
  if c.status.any (source.status.text ∉ ·) then .dead
  else
    match c.verdict with
    | none => .satisfied
    | some verdicts =>
      let verdict := (trimText source.verdict).toLower
      -- without a status list only the verdict of a done or skipped node is trusted
      if c.status = none ∧ !source.status.satisfies then .dead
      else if verdict = "" then .dead
      else if verdict ∈ verdicts then .satisfied
      else .dead

def evaluateEdge (edge : GraphEdge) (source : Option GraphNodeState) : EdgeState :=
  match source with
  | none => .satisfied
  | some source =>
    if !source.status.isTerminal then .pending
    else
      match edge.condition with
      | none => if source.status.satisfies then .satisfied else .dead
      | some c => evaluateCondition c source

/-- `byKey.get(key)`: the last state of a key. -/
def stateOf (states : List GraphNodeState) (key : String) : Option GraphNodeState :=
  states.reverse.find? (·.key = key)

/-- The body of the loop of `computeGraphProgress`: the list a node is pushed to. -/
def graphBucketOf (edges : List GraphEdge) (states : List GraphNodeState) (node : GraphNode) :
    Bucket :=
  let status := match stateOf states node.key with
    | some s => s.status
    | none => .pending
  let evaluations :=
    (edges.filter fun e => e.kind ≠ .loop_back ∧ e.target = node.key).map fun e =>
      evaluateEdge e (stateOf states e.source)
  if status.isInFlight then .inFlight
  else if status.isAwaitingUser then .awaitingUser
  else if status = .done ∨ status = .skipped then .done
  else if status.isTerminal then .failed
  else if evaluations = [] then .dispatchable
  else
    match node.join with
    | .any =>
      if .satisfied ∈ evaluations then .dispatchable
      else if evaluations.all (· = .dead) then .newlyBlocked
      else .waiting
    | .all =>
      if .dead ∈ evaluations then .newlyBlocked
      else if evaluations.all (· = .satisfied) then .dispatchable
      else .waiting

/-- The keys of one list, in the order of the nodes. -/
def nodesIn (spec : GraphSpec) (states : List GraphNodeState) (b : Bucket) : List String :=
  (spec.nodes.filter (graphBucketOf spec.edges states · = b)).map (·.key)

def computeGraphProgress (spec : GraphSpec) (states : List GraphNodeState) : PlanProgress where
  dispatchable := nodesIn spec states .dispatchable
  waiting := nodesIn spec states .waiting
  newlyBlocked := nodesIn spec states .newlyBlocked
  inFlight := nodesIn spec states .inFlight
  awaitingUser := nodesIn spec states .awaitingUser
  done := nodesIn spec states .done
  failed := nodesIn spec states .failed
  allTerminal := spec.nodes.all fun n => graphBucketOf spec.edges states n ∈ [.done, .failed]

/-- The `loop_back` edges out of a node that its state takes. -/
def firedLoopBacks (spec : GraphSpec) (nodeKey : String) (state : GraphNodeState) :
    List GraphEdge :=
  (spec.edges.filter fun e => e.kind = .loop_back ∧ e.source = nodeKey).filter fun e =>
    evaluateEdge e (some state) = .satisfied

/-! ## Graphs of a replan -/

structure WaveStepInput where
  step_key : String
  depends_on : List String

/-- The dependencies of a wave plan as sequence edges. -/
def graphFromWavePlan (steps : List WaveStepInput) : Except String GraphSpec :=
  let keys := (steps.map (trimText ·.step_key)).filter (· ≠ "")
  let edges := steps.flatMap fun step =>
    let target := trimText step.step_key
    ((step.depends_on.map trimText).filter fun d => d ≠ "" ∧ d ≠ target ∧ d ∈ keys).map fun d =>
      { source := d, target, kind := some "sequence" : GraphEdgeInput }
  match validateGraphSpec
      { nodes := keys.map ({ key := · }), edges, max_total_visits := some keys.length } keys
      .auto with
  | .error e => .error ("wave plan could not be expressed as a graph: " ++ e)
  | .ok spec => .ok spec

/-- A stored node as an input again. -/
def GraphNode.toInput (n : GraphNode) : GraphNodeInput :=
  { key := n.key, kind := some n.kind.text, join := some n.join.text,
    max_visits := some (n.max_visits : Int) }

/-- A stored edge as an input again. -/
def GraphEdge.toInput (e : GraphEdge) : GraphEdgeInput :=
  { source := e.source, target := e.target, kind := some e.kind.text, condition := e.condition,
    label := e.label }

/-- The stored graph for the keys of a new plan: its rules stay, new keys become tasks. -/
def carryGraphThroughReplan (spec : GraphSpec) (nodeKeys : List String)
    (confirmPolicy : ConfirmPolicy) : Except String GraphSpec :=
  let planKeys := ((nodeKeys.map trimText).filter (· ≠ "")).eraseDups
  validateGraphSpec
    { nodes := spec.nodes.map (·.toInput), edges := spec.edges.map (·.toInput),
      max_total_visits := some (max spec.max_total_visits planKeys.length : Nat) }
    planKeys confirmPolicy

/-! ## Patches -/

def MAX_GRAPH_PATCHES : Nat := 50

structure GraphEdgeRemoval where
  source : String
  target : String
  kind : Option String := none

structure GraphPatchInput where
  set_nodes : List GraphNodeInput := []
  add_edges : List GraphEdgeInput := []
  remove_edges : List GraphEdgeRemoval := []
  max_total_visits : Option Int := none

/-- `computeMissionProgress`'s view of a patch: what has run so far. -/
structure GraphRuntimeState where
  nodes : List GraphNodeState
  total_visits : Nat

inductive GraphPatchChange where
  | edge_removed (e : GraphEdgeInput)
  | edge_added (e : GraphEdgeInput)
  | node_updated (node : GraphNodeInput)
  | budget_updated (budget : Int)

def GraphEdgeRemoval.matches (r : GraphEdgeRemoval) (e : GraphEdgeInput) : Bool :=
  e.source = trimText r.source ∧ e.target = trimText r.target ∧
    r.kind.all fun kind => trimText kind = "" ∨ e.kind = some (trimText kind)

/-- The removals, one after another. -/
def removeEdges : List GraphEdgeInput → List GraphEdgeRemoval →
    Except String (List GraphEdgeInput × List GraphPatchChange)
  | edges, [] => .ok (edges, [])
  | edges, r :: rest => do
    let source := trimText r.source
    let target := trimText r.target
    require (edges.any (r.matches ·))
      (s!"graph patch cannot remove edge {source} → {target} — no such edge in the " ++
        "current graph")
    let (left, changes) ← removeEdges (edges.filter (!r.matches ·)) rest
    return (left, (edges.filter (r.matches ·)).map .edge_removed ++ changes)

/-- An added edge with its fields trimmed. -/
def addedEdge (raw : GraphEdgeInput) : GraphEdgeInput :=
  { raw with
    source := trimText raw.source, target := trimText raw.target,
    kind := some (match raw.kind with
      | none => "sequence"
      | some kind => if kind = "" then "sequence" else trimText kind) }

/-- The node updates, one after another; the nodes keep their order. -/
def setNodes : List GraphNodeInput → List GraphNodeInput →
    Except String (List GraphNodeInput × List GraphPatchChange)
  | nodes, [] => .ok (nodes, [])
  | nodes, raw :: rest => do
    let rawKey := raw.key
    let key := trimText raw.key
    let current ← orThrow (nodes.find? (·.key = key))
      (s!"graph patch cannot update node \"{rawKey}\" — it is not in the current graph. A patch " ++
        "may only change existing nodes; add or remove work with submit_orchestration_plan.")
    let next : GraphNodeInput :=
      { key
        kind := (raw.kind.map trimText).or current.kind
        join := (raw.join.map trimText).or current.join
        max_visits := raw.max_visits.or current.max_visits }
    let (updated, changes) ← setNodes (nodes.map fun n => if n.key = key then next else n) rest
    return (updated, (if next = current then [] else [.node_updated next]) ++ changes)

/-- A node whose visits are used up cannot be given fewer. -/
def checkUsedVisits (states : List GraphNodeState) (node : GraphNode) : Except String Unit :=
  let key := node.key
  let allowed := node.max_visits
  let used := match stateOf states node.key with
    | some s => s.visit
    | none => 0
  require (used ≤ allowed)
    (s!"graph patch rejected: node \"{key}\" has already run {used} time(s), so its max_visits " ++
      s!"cannot be lowered to {allowed}. Lower it to {used} to stop it from running again, " ++
      "or leave it alone.")

def applyGraphPatch (spec : GraphSpec) (patch : GraphPatchInput) (nodeKeys : List String)
    (runtime : GraphRuntimeState) (confirmPolicy : ConfirmPolicy) :
    Except String (GraphSpec × List GraphPatchChange) := do
  require (patch.set_nodes ≠ [] || patch.add_edges ≠ [] || patch.remove_edges ≠ [] ||
      patch.max_total_visits.isSome)
    ("graph patch is empty — give at least one of set_nodes, add_edges, remove_edges or " ++
      "max_total_visits")
  let (kept, removed) ← removeEdges (spec.edges.map (·.toInput)) patch.remove_edges
  let added := patch.add_edges.map addedEdge
  let (nodes, updated) ← setNodes (spec.nodes.map (·.toInput)) patch.set_nodes
  let nextBudget := patch.max_total_visits.getD spec.max_total_visits
  let changes := removed ++ added.map .edge_added ++ updated ++
    if nextBudget = spec.max_total_visits then [] else [.budget_updated nextBudget]
  require (changes ≠ [])
    ("graph patch would not change anything — the graph already matches what you asked for")
  let next ← match validateGraphSpec
      { nodes, edges := kept ++ added, max_total_visits := some nextBudget } nodeKeys
      confirmPolicy with
    | .error e => .error ("graph patch rejected: " ++ e)
    | .ok next => .ok next
  next.nodes.forM (checkUsedVisits runtime.nodes)
  let used := runtime.total_visits
  let budget := next.max_total_visits
  require (used ≤ budget)
    (s!"graph patch rejected: the mission has already used {used} of its execution " ++
      s!"budget, so max_total_visits cannot be lowered to {budget}. Lower it to " ++
      s!"{used} to stop further dispatches.")
  return (next, changes)

/-! ## `computeMissionProgress` -/

structure MissionStepStateView where
  step_key : String
  status : StepStatus
  depends_on : List String
  visit : Nat
  verdict : String

def computeMissionProgress (graphSpec : Option GraphSpec) (steps : List MissionStepStateView) :
    PlanProgress :=
  match graphSpec with
  | some spec =>
    computeGraphProgress spec (steps.map fun s => ⟨s.step_key, s.status, s.visit, s.verdict⟩)
  | none => computePlanProgress (steps.map fun s => ⟨s.step_key, s.status, some s.depends_on⟩)

end WorkflowBoard.Orchestration
