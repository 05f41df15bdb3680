import Mathlib.Data.Rat.Floor
import WorkflowBoard.ForStd.InsertMap
import WorkflowBoard.Native.JsDate
import WorkflowBoard.Native.JsString

/-!
# The spawn suppressor (`agent-manager/src/lib/dispatch-preflight.ts`)

Remembers the preflight aborts of each ticket and role, drops the supervisor's triggers for it
during a cooldown, and tells the caller when to pend the ticket. All methods are synchronous.
-/

namespace WorkflowBoard.AgentManager

/-- `DEFAULT_SPAWN_SUPPRESS_COOLDOWN_MS`. -/
def defaultSpawnSuppressCooldownMs : Int := 10 * 60000

/-- `DEFAULT_PEND_AFTER_ABORTS`. -/
def defaultPendAfterAborts : Nat := 3

/-- `DURABLE_BLOCKER_REASONS`. -/
def durableBlockerReasons : List String :=
  ["not_a_git_repo", "incomplete_checkout", "wrong_repository", "main_clone_not_git_repo",
    "main_clone_wrong_repository", "push_credential_unavailable", "cli_trust_required",
    "cli_credential_expired", "invalid_mcp_transport", "approve_requires_approval_bridge"]

def isDurableProvisioningBlocker (kind : String) : Bool :=
  if kind = "" then false
  else
    let worktree := "worktree:".toList
    let reason :=
      if worktree.isPrefixOf kind.toList then String.ofList (kind.toList.drop worktree.length)
      else kind
    durableBlockerReasons.contains reason

structure SpawnSuppressDecision where
  suppress : Bool
  kind : Option String := none
  count : Option Nat := none
  sinceMs : Option Int := none

/-- A record of `#byKey`. -/
structure SpawnBlock where
  kind : String
  firstAt : Date
  lastAt : Date
  count : Nat
  lastProbeAt : Date

/-- The constructor lets no cooldown through that is not positive. -/
structure RoleSpawnSuppressor where
  cooldownMs : Int
  pendAfterAborts : Nat
  byKey : InsertMap String SpawnBlock := {}
  cooldownMs_pos : 0 < cooldownMs

namespace RoleSpawnSuppressor

/-- The constructor; both arguments have a default. -/
def new (cooldownMs : Int := defaultSpawnSuppressCooldownMs)
    (pendAfterAborts : ℚ := defaultPendAfterAborts) : RoleSpawnSuppressor where
  cooldownMs := if 0 < cooldownMs then cooldownMs else defaultSpawnSuppressCooldownMs
  pendAfterAborts :=
    if 0 < pendAfterAborts then ⌊pendAfterAborts⌋.toNat else defaultPendAfterAborts
  cooldownMs_pos := by
    split
    · assumption
    · decide

/-- `#key`. -/
def key (ticketId role : String) : String := ticketId ++ ":" ++ role

/-- The key of a call, if it names a ticket and a role. -/
def key? (ticketId role : Option String) : Option String :=
  match ticketId, role with
  | some ticketId, some role => if ticketId = "" ∨ role = "" then none else some (key ticketId role)
  | _, _ => none

def pendThreshold (s : RoleSpawnSuppressor) (kind : String) : Nat :=
  if isDurableProvisioningBlocker kind then 1 else s.pendAfterAborts

/-- The record after an abort. -/
def noteBlock (prev : Option SpawnBlock) (kind : String) (now : Date) : SpawnBlock :=
  match prev with
  | none => { kind, firstAt := now, lastAt := now, count := 1, lastProbeAt := now }
  | some prev =>
    if prev.kind ≠ kind then { kind, firstAt := now, lastAt := now, count := 1, lastProbeAt := now }
    else { prev with lastAt := now, count := prev.count + 1 }

/-- The count of the episode, and whether this abort pends the ticket. -/
def note (s : RoleSpawnSuppressor) (ticketId role : Option String) (kind : String) (now : Date) :
    (Nat × Bool) × RoleSpawnSuppressor :=
  match key? ticketId role with
  | none => ((0, false), s)
  | some key =>
    let block := noteBlock (s.byKey.get key) kind now
    ((block.count, block.count = s.pendThreshold kind), { s with byKey := s.byKey.set key block })

def shouldSuppress (s : RoleSpawnSuppressor) (ticketId role : Option String) (now : Date)
    (fromSupervisor : Bool) : SpawnSuppressDecision × RoleSpawnSuppressor :=
  match key? ticketId role with
  | none => ({ suppress := false }, s)
  | some key =>
    match s.byKey.get key with
    | none => ({ suppress := false }, s)
    | some block =>
      if !fromSupervisor then ({ suppress := false }, s)
      else if s.cooldownMs ≤ (now - block.lastProbeAt : Int) then
        ({ suppress := false },
          { s with byKey := s.byKey.set key { block with lastProbeAt := now } })
      else
        ({ suppress := true, kind := block.kind, count := block.count,
           sinceMs := some (max 0 (now - block.firstAt)) }, s)

def clear (s : RoleSpawnSuppressor) (ticketId role : Option String) : RoleSpawnSuppressor :=
  match key? ticketId role with
  | none => s
  | some key => { s with byKey := s.byKey.delete key }

end RoleSpawnSuppressor

/-! ## Runs -/

inductive SpawnMethod where
  | note (kind : String) (now : Date)
  | shouldSuppress (now : Date) (fromSupervisor : Bool)
  | clear
deriving DecidableEq

structure SpawnCall where
  ticketId : Option String
  role : Option String
  method : SpawnMethod
deriving DecidableEq

inductive SpawnAnswer where
  | noted (count : Nat) (shouldPend : Bool)
  | decided (decision : SpawnSuppressDecision)
  | cleared

/-- A call and its answer. -/
structure SpawnEvent where
  call : SpawnCall
  answer : SpawnAnswer

namespace RoleSpawnSuppressor

def act (s : RoleSpawnSuppressor) (c : SpawnCall) : SpawnAnswer × RoleSpawnSuppressor :=
  match c.method with
  | .note kind now =>
    let noted := s.note c.ticketId c.role kind now
    (.noted noted.1.1 noted.1.2, noted.2)
  | .shouldSuppress now fromSupervisor =>
    let decided := s.shouldSuppress c.ticketId c.role now fromSupervisor
    (.decided decided.1, decided.2)
  | .clear => (.cleared, s.clear c.ticketId c.role)

/-- The events of a sequence of calls, and the suppressor after it. -/
def run (s : RoleSpawnSuppressor) : List SpawnCall → List SpawnEvent × RoleSpawnSuppressor
  | [] => ([], s)
  | c :: cs =>
    let rest := run (s.act c).2 cs
    ({ call := c, answer := (s.act c).1 } :: rest.1, rest.2)

end RoleSpawnSuppressor

end WorkflowBoard.AgentManager
