import WorkflowBoard.Native.MissionGraph

/-!
# Graph templates (`modules/orchestration/orchestration-graph-templates.ts`)

Named shapes a plan can ask for instead of writing a graph. A template builds a graph input
from its parameters, and the input is validated like any other. A parameter of the wrong
type counts as absent, as in the readers of the source.
-/

namespace WorkflowBoard.Orchestration

structure GraphTemplateParams where
  steps : Option (List String) := none
  work : Option String := none
  review : Option String := none
  max_passes : Option Int := none
  on_pass : Option String := none
  pass_verdict : Option String := none
  revise_verdict : Option String := none
  max_total_visits : Option Int := none
  branches : Option (List String) := none
  aggregate : Option String := none
  source : Option String := none

def readKey (raw : Option String) (name template : String) : Except String String := do
  let value := trimText (raw.getD "")
  require (value ≠ "") s!"graph template \"{template}\" needs a \"{name}\" step_key"
  return value

/-- The first key that stands in the list before it. -/
def repeated : List String → List String → Option String
  | _, [] => none
  | seen, key :: rest => if key ∈ seen then some key else repeated (seen ++ [key]) rest

def readKeyList (raw : Option (List String)) (name template : String) (minimum : Nat) :
    Except String (List String) := do
  let raw ← orThrow raw
    s!"graph template \"{template}\" needs \"{name}\" as an array of step_keys"
  let keys := (raw.map trimText).filter (· ≠ "")
  require (minimum ≤ keys.length)
    s!"graph template \"{template}\" needs at least {minimum} step_key(s) in \"{name}\""
  refuseIf (repeated [] keys) fun key =>
    s!"graph template \"{template}\" lists \"{key}\" twice in \"{name}\" — each step appears once"
  return keys

def readCount (raw : Option Int) (name template : String) (min max : Int) :
    Except String Int := do
  let value ← orThrow raw s!"graph template \"{template}\" needs \"{name}\""
  require (min ≤ value && value ≤ max)
    (s!"graph template \"{template}\": \"{name}\" must be a whole number between {min} and " ++
      s!"{max}")
  return value

def readVerdict (raw : Option String) (fallback : String) : String :=
  let value := (trimText (raw.getD "")).toLower
  if value = "" then fallback else value

/-- Every pass after the first runs the body of the loop once more. -/
def loopBudget (nodeCount loopBodySize : Nat) (passes : Int) : Int :=
  min MAX_TOTAL_VISITS_CEILING (nodeCount + loopBodySize * (passes - 1))

def buildLinear (params : GraphTemplateParams) : Except String GraphSpecInput := do
  let steps ← readKeyList params.steps "steps" "linear" 2
  return {
    nodes := steps.map ({ key := · })
    edges := (steps.zip steps.tail).map fun (source, target) =>
      { source, target, kind := some "sequence" } }

def buildReviewLoop (params : GraphTemplateParams) : Except String GraphSpecInput := do
  let work ← readKey params.work "work" "review_loop"
  let review ← readKey params.review "review" "review_loop"
  require (work ≠ review)
    "graph template \"review_loop\": \"work\" and \"review\" must be different steps"
  let passes ← readCount params.max_passes "max_passes" "review_loop" MIN_LOOP_MAX_VISITS
    MAX_NODE_VISITS_CEILING
  let onPass := trimText (params.on_pass.getD "")
  require (onPass = "" || (onPass ≠ work && onPass ≠ review))
    "graph template \"review_loop\": \"on_pass\" must be a different step from work/review"
  let passVerdict := readVerdict params.pass_verdict "pass"
  let reviseVerdict := readVerdict params.revise_verdict "revise"
  require (passVerdict ≠ reviseVerdict)
    ("graph template \"review_loop\": \"pass_verdict\" and \"revise_verdict\" must differ — " ++
      "otherwise the same verdict both ends and restarts the loop")
  let nodes : List GraphNodeInput :=
    [{ key := work, max_visits := some passes },
      { key := review, kind := some "evaluator", max_visits := some passes }] ++
    if onPass = "" then [] else [{ key := onPass }]
  let edges : List GraphEdgeInput :=
    [{ source := work, target := review, kind := some "sequence" },
      { source := review, target := work, kind := some "loop_back",
        condition := some { verdict := some [reviseVerdict] }, label := "needs revision" }] ++
    if onPass = "" then []
    else [{ source := review, target := onPass, kind := some "conditional",
            condition := some { verdict := some [passVerdict] }, label := "approved" }]
  let budget := params.max_total_visits.getD (loopBudget nodes.length 2 passes)
  return { nodes, edges, max_total_visits := some budget }

def buildFanOutAggregate (params : GraphTemplateParams) : Except String GraphSpecInput := do
  let branches ← readKeyList params.branches "branches" "fan_out_aggregate" 2
  let aggregate ← readKey params.aggregate "aggregate" "fan_out_aggregate"
  require (aggregate ∉ branches)
    "graph template \"fan_out_aggregate\": \"aggregate\" cannot also be one of the branches"
  let source := trimText (params.source.getD "")
  require (source = "" || (source ∉ branches && source ≠ aggregate))
    ("graph template \"fan_out_aggregate\": \"source\" must differ from the branches and the " ++
      "aggregate")
  let nodes : List GraphNodeInput :=
    branches.map ({ key := · }) ++ [{ key := aggregate, join := some "all" }] ++
      if source = "" then [] else [{ key := source }]
  let edges : List GraphEdgeInput := branches.flatMap fun branch =>
    (if source = "" then [] else [{ source, target := branch, kind := some "sequence" }]) ++
      [{ source := branch, target := aggregate, kind := some "sequence" }]
  return { nodes, edges }

/-- `BY_NAME` with the builders of `TEMPLATES`. -/
def buildTemplate (name : String) :
    Option (GraphTemplateParams → Except String GraphSpecInput) :=
  if name = "linear" then some buildLinear
  else if name = "review_loop" then some buildReviewLoop
  else if name = "fan_out_aggregate" then some buildFanOutAggregate
  else none

def expandGraphTemplate (rawName : String) (params : GraphTemplateParams)
    (nodeKeys : List String) (confirmPolicy : ConfirmPolicy) : Except String GraphSpec := do
  let name := trimText rawName
  let build ← orThrow (buildTemplate name)
    (s!"unknown graph template \"{rawName}\" — available templates: " ++
      "linear, review_loop, fan_out_aggregate")
  let built ← build params
  let referenced := (built.nodes.map (·.key) ++
    built.edges.flatMap fun e => [e.source, e.target]).eraseDups
  let missing := referenced.filter (· ∉ nodeKeys)
  let missingText := ", ".intercalate missing
  require (missing = [])
    (s!"graph template \"{name}\" references step(s) {missingText} that are not in the " ++
      "plan. Submit those steps first, or point the template at existing step_keys.")
  match validateGraphSpec built nodeKeys confirmPolicy with
  | .error e => .error (s!"graph template \"{name}\" produced an invalid graph: " ++ e)
  | .ok spec => .ok spec

end WorkflowBoard.Orchestration
