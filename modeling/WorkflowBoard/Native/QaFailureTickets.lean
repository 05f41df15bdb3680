import Mathlib.Data.List.Infix
import WorkflowBoard.Native.QaCron
import WorkflowBoard.Native.TicketDuplicate

/-!
# Failure tickets of a QA scenario (`modules/qa/qa-failure-ticket.service.ts`)

The policy under which a failed run files its ticket, the tags the ticket carries, and the query
that finds the open tickets of a scenario. The generation of a rerun travels in a tag of the
ticket: `buildTags` writes it and `parseGeneration` of `qa-rerun-on-fix.service.ts` reads it.

A tag list is stored as JSON text, which `LIKE` searches; ids are UUIDs, without a wildcard. Title,
body, priority and assignee of a ticket are left out.
-/

namespace WorkflowBoard.Qa

open WorkflowBoard.Tickets

/-! ## Tags -/

def maxTags : Nat := 30

def maxTagLength : Nat := 60

/-- `replace(/\s+/g, ' ')`. -/
def collapseSpaces (cs : List Char) : List Char :=
  cs.foldr (fun c acc =>
    if isJsSpace c then if acc.head? = some ' ' then acc else ' ' :: acc else c :: acc) []

def normalizeTag (value : String) : String :=
  sliceText maxTagLength (String.ofList (collapseSpaces (jsTrim value)))

/-- `normalizeTags` of `ticket.service.ts`: trimmed, without a second spelling of a tag, bounded. -/
def normalizeTags (u : Unicode) (raw : List String) : List String := go [] raw
where
  go (out : List String) : List String → List String
    | [] => out
    | value :: rest =>
      let tag := normalizeTag value
      if tag = "" ∨ u.lower tag ∈ out.map u.lower then go out rest
      else if maxTags ≤ (out ++ [tag]).length then out ++ [tag]
      else go (out ++ [tag]) rest

def scenarioTagPrefix : String := "qa-scenario:"

def rerunTagPrefix : String := "qa-rerun:"

/-- `DEFAULT_TAGS`; a ticket that carries them is an automatic one. -/
def defaultTags : List String := ["qa-failure", "auto"]

/-- `tag.startsWith(start)`. -/
def startsWith (start tag : String) : Bool := start.toList.isPrefixOf tag.toList

/-- What follows the first `n` characters. -/
def tagRest (start tag : String) : List Char := tag.toList.drop start.length

inductive TicketDedupe where
  | per_run
  | per_open_ticket
deriving DecidableEq

structure QaOnFailureTicketConfig where
  enabled : Bool := true
  project_id : Option String := none
  status : Option TicketStatus := none
  tags : Option (List String) := none
  labels : Option (List String) := none
  dedupe : Option TicketDedupe := none
  rerun_on_fix : Bool := false
  max_rerun_attempts : Option Int := none
  rerun_delay_seconds : Option Int := none
  deployment_gate : Bool := false

/-- The tags the policy asks for. -/
def QaOnFailureTicketConfig.configured (cfg : QaOnFailureTicketConfig) (u : Unicode) :
    List String :=
  normalizeTags u ((cfg.tags.orElse fun _ => cfg.labels).getD [])

/-- The tag of a generation. -/
def rerunTag (generation : Nat) : String := rerunTagPrefix ++ toString generation

/-- `_buildTags`. The original failure has no generation marker. -/
def buildTags (u : Unicode) (cfg : QaOnFailureTicketConfig) (scenarioId : String)
    (generation : Nat) : List String :=
  let configured := cfg.configured u
  let base := if configured = [] then defaultTags else configured
  let marker := scenarioTagPrefix ++ scenarioId
  let base := if marker ∈ base then base else base ++ [marker]
  if 0 < generation then
    base.filter (fun t => !startsWith rerunTagPrefix t) ++ [rerunTag generation]
  else base

/-- `_parseGeneration`: the highest generation among the tags. -/
def parseGeneration (tags : List String) : Nat :=
  tags.foldl (fun gen t =>
    if startsWith rerunTagPrefix t then
      max gen (((parseInt (tagRest rerunTagPrefix t)).getD 0).toNat)
    else gen) 0

/-- `_parseScenarioId`: the id in the first scenario tag. -/
def parseScenarioId (tags : List String) : Option String :=
  ((tags.find? (startsWith scenarioTagPrefix)).map fun t =>
    trimText (String.ofList (tagRest scenarioTagPrefix t))).filter (· ≠ "")

/-! ## Policy and query -/

/-- `result_policy_snapshot`: the settings of the scenario when the run was dispatched. -/
structure ResultPolicy where
  project_id : Option String := none
  on_failure_ticket : QaOnFailureTicketConfig := {}

structure Project where
  id : String
  account_id : String

/-- What the calls for a scenario read and never write: how the store compares characters in a
    `LIKE`, the strings of the runtime, and the projects. -/
structure QaWorld where
  likeFold : Char → Char
  unicode : Unicode
  projects : List Project := []
  scenario_id : String
  account_id : String
  max_rerun_attempts : Option Int := none

/-- The first of two values that is set and not empty. -/
def firstSet (a b : Option String) : Option String :=
  (a.filter (· ≠ "")).orElse fun _ => b.filter (· ≠ "")

namespace ResultPolicy

/-- The project whose tickets the query looks at. -/
def queriedProject (p : ResultPolicy) : Option String :=
  firstSet p.on_failure_ticket.project_id p.project_id

/-- The project the ticket is filed under: none if it is not one of the account. -/
def filedProject (p : ResultPolicy) (w : QaWorld) : Option String :=
  ((p.queriedProject.map trimText).filter (· ≠ "")).filter fun id =>
    ((w.projects.find? (·.id = id)).filter (·.account_id = w.account_id)).isSome

def dedupes (p : ResultPolicy) : Bool :=
  p.on_failure_ticket.dedupe.getD .per_open_ticket = .per_open_ticket

end ResultPolicy

/-- A character in JSON text. -/
def jsonChar (c : Char) : List Char :=
  if c = '"' ∨ c = '\\' then ['\\', c]
  else if c = '\n' then ['\\', 'n']
  else if c = '\r' then ['\\', 'r']
  else if c = '\t' then ['\\', 't']
  else if c.toNat = 8 then ['\\', 'b']
  else if c.toNat = 12 then ['\\', 'f']
  else if c.toNat < 32 then
    ['\\', 'u', '0', '0', Nat.digitChar (c.toNat / 16), Nat.digitChar (c.toNat % 16)]
  else [c]

/-- `JSON.stringify` of a list of strings. -/
def jsonText (tags : List String) : List Char :=
  '[' :: [','].intercalate (tags.map fun t => '"' :: t.toList.flatMap jsonChar ++ ['"']) ++ [']']

/-- `tags LIKE '%marker%'`. -/
def tagsLike (w : QaWorld) (tags : List String) : Bool :=
  decide ((scenarioTagPrefix ++ w.scenario_id).toList.map w.likeFold <:+:
    (jsonText tags).map w.likeFold)

/-- A ticket that `_openScenarioTickets` finds under the policy. -/
def isOpenScenarioTicket (w : QaWorld) (p : ResultPolicy) (t : Ticket) : Bool :=
  t.account_id = w.account_id && t.depth = 0 && t.archived_at.isNone && t.status ≠ .done &&
    tagsLike w t.tags && p.queriedProject.all fun id => t.project_id = some id

/-- A ticket that the sweep behind a passed run closes. -/
def isOpenAutoTicket (w : QaWorld) (p : ResultPolicy) (t : Ticket) : Bool :=
  isOpenScenarioTicket w p t && defaultTags.all (· ∈ t.tags)

/-- The row `_createTicket` inserts, filed under `project`. -/
def failureTicket (w : QaWorld) (p : ResultPolicy) (generation : Nat) (project : Option String)
    (now : Date) : Ticket :=
  let cfg := p.on_failure_ticket
  { id := ""
    account_id := w.account_id
    status := if cfg.status = some .backlog then .backlog else .todo
    tags := normalizeTags w.unicode (buildTags w.unicode cfg w.scenario_id generation)
    project_id := project
    created_at := now }

end WorkflowBoard.Qa
