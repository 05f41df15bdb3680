import WorkflowBoard.ForStd.Transition

/-!
# The run budget of an account (`common/run-budget-guard.ts`)

`enforceRunBudget` at the head of a dispatch: it reads the account's settings, counts the runs of
the kind that were created in the window and refuses at the limit; if it cannot be evaluated, the
dispatch goes on. Behind it come the other reads and writes of the dispatch, the insert of the run
and, for a QA scenario or an action, the pruning of its old runs. Any number of dispatches are
between two of their statements at once.

Time is in microseconds. `new Date()` has milliseconds; `created_at` has microseconds on Postgres
and whole seconds on sql.js, where `sinceBoundaryParam` cuts the bound to seconds as well. A run
that was deleted stays in the list of the model, marked. Alerts are left out.
-/

namespace WorkflowBoard.Budget

inductive RunBudgetKind where
  | qa
  | action
  | orchestration
  | marketing
deriving DecidableEq

inductive SqlStore where
  | sqljs
  | postgres
deriving DecidableEq

/-- The account's own settings, as they parse. -/
structure HardBudgetConfig where
  enabled : Option Bool := none
  window_minutes : Option Nat := none
  max_runs_per_window : Option Nat := none

structure ResolvedHardBudget where
  enabled : Bool := true
  windowMs : Nat := 60 * 60000
  maxRunsPerWindow : Nat := 50

def resolveHardBudgetConfig (raw : Option HardBudgetConfig) (base : ResolvedHardBudget) :
    ResolvedHardBudget :=
  match raw with
  | none => base
  | some cfg =>
    { enabled := cfg.enabled.getD base.enabled
      windowMs := (cfg.window_minutes.map (· * 60000)).getD base.windowMs
      maxRunsPerWindow := cfg.max_runs_per_window.getD base.maxRunsPerWindow }

/-- What the dispatches read and never write: the store, the defaults from the environment and
    the settings of the accounts. -/
structure BudgetWorld where
  store : SqlStore
  base : ResolvedHardBudget
  config : String → Option HardBudgetConfig

/-- `resolveHardBudgetForAccount`. -/
def BudgetWorld.budget (w : BudgetWorld) (accountId : String) : ResolvedHardBudget :=
  resolveHardBudgetConfig (if accountId = "" then none else w.config accountId) w.base

/-- A run that was created: the instant of its insert, what `created_at` holds, and whether its
    row was deleted. -/
structure CreatedRun where
  kind : RunBudgetKind
  account_id : String
  /-- The scenario or action whose runs are pruned together. -/
  owner_id : String
  inserted_at : Nat
  created_at : Int
  deleted : Bool := false

/-- The default of a `created_at` column. -/
def createdAt (store : SqlStore) (clock : Nat) : Int :=
  match store with
  | .postgres => clock
  | .sqljs => (clock : Int) / 1000000 * 1000000

/-- `sinceBoundaryParam`, for a bound in milliseconds. -/
def sinceBoundaryParam (store : SqlStore) (since : Int) : Int :=
  match store with
  | .postgres => since * 1000
  | .sqljs => since / 1000 * 1000000

/-- `new Date(now.getTime() - cfg.windowMs)`. -/
def windowStart (clock windowMs : Nat) : Int := (clock / 1000 : Nat) - (windowMs : Int)

structure Dispatch where
  kind : RunBudgetKind
  account_id : String
  owner_id : String
  /-- The cap of `_pruneOldRuns`; orchestration and marketing prune nothing. -/
  max_runs : Option Nat := none

/-- What an admitted dispatch went by: the runs there were at its count, and the bound. -/
structure BudgetBasis where
  seen : Nat
  since : Int

inductive DispatchPhase where
  | resolving
  | counting (cfg : ResolvedHardBudget)
  /-- Through the guard; without a basis if the budget is off or could not be evaluated. -/
  | admitted (basis : Option BudgetBasis)
  | pruning
  | deleting (runs : List Nat)
  | ended

/-- Runs are known by their place. -/
structure BudgetState where
  clock : Nat := 0
  runs : List CreatedRun := []
  calls : List (Dispatch × DispatchPhase) := []

namespace BudgetState

def setPhase (s : BudgetState) (k : Nat) (d : Dispatch) (phase : DispatchPhase) : BudgetState :=
  { s with calls := s.calls.set k (d, phase) }

/-- `countRunsInWindow`. -/
def countRunsInWindow (w : BudgetWorld) (s : BudgetState) (kind : RunBudgetKind)
    (accountId : String) (since : Int) : Nat :=
  s.runs.countP fun r => !r.deleted && r.kind = kind && r.account_id = accountId &&
    sinceBoundaryParam w.store since ≤ r.created_at

/-- The runs of an owner that are still there, the newest first. -/
def ownRuns (s : BudgetState) (kind : RunBudgetKind) (owner : String) : List Nat :=
  ((List.range s.runs.length).filter fun i =>
    (s.runs[i]?).any fun r => !r.deleted && r.kind = kind && r.owner_id = owner).reverse

def deleteRun (s : BudgetState) (i : Nat) : BudgetState :=
  { s with runs := s.runs.modify i fun r => { r with deleted := true } }

/-- The next statement of a dispatch. -/
def callNext (w : BudgetWorld) (s : BudgetState) (k : Nat) (d : Dispatch) :
    DispatchPhase → Option BudgetState
  | .resolving =>
    let cfg := w.budget d.account_id
    some (s.setPhase k d (if cfg.enabled then .counting cfg else .admitted none))
  | .counting cfg =>
    let since := windowStart s.clock cfg.windowMs
    if s.countRunsInWindow w d.kind d.account_id since < cfg.maxRunsPerWindow then
      some (s.setPhase k d (.admitted (some { seen := s.runs.length, since })))
    else some (s.setPhase k d .ended)
  | .admitted _ =>
    some { s with
      runs := s.runs ++ [{
        kind := d.kind, account_id := d.account_id, owner_id := d.owner_id
        inserted_at := s.clock, created_at := createdAt w.store s.clock }]
      calls := s.calls.set k (d, if d.max_runs.isSome then .pruning else .ended) }
  | .pruning =>
    -- `Math.max(1, max || 20)`
    let cap := match d.max_runs with
      | some 0 | none => 20
      | some max => max
    some (s.setPhase k d (.deleting ((s.ownRuns d.kind d.owner_id).drop cap)))
  | .deleting [] => some (s.setPhase k d .ended)
  | .deleting (i :: rest) => some ((s.deleteRun i).setPhase k d (.deleting rest))
  | .ended => none

/-- The evaluation of the budget throws: the dispatch goes on. -/
def failOpen (s : BudgetState) (k : Nat) (d : Dispatch) : DispatchPhase → Option BudgetState
  | .resolving | .counting _ => some (s.setPhase k d (.admitted none))
  | _ => none

end BudgetState

inductive BudgetAction where
  | tick (elapsed : Nat)
  | start (d : Dispatch)
  | next (k : Nat)
  | failOpen (k : Nat)
  /-- A dispatch throws. -/
  | throws (k : Nat)
  /-- Somebody deletes a run, or what owns it. -/
  | delete (run : Nat)

/-- One statement, if there is one. -/
def BudgetAction.run (w : BudgetWorld) (s : BudgetState) : BudgetAction → Option BudgetState
  | tick elapsed => some { s with clock := s.clock + elapsed }
  | start d => some { s with calls := s.calls ++ [(d, .resolving)] }
  | next k => (s.calls[k]?).bind fun (d, phase) => s.callNext w k d phase
  | failOpen k => (s.calls[k]?).bind fun (d, phase) => s.failOpen k d phase
  | throws k => (s.calls[k]?).map fun (d, _) => s.setPhase k d .ended
  | delete i => some (s.deleteRun i)

/-- Any number of dispatches, from empty tables. -/
def budgetSystem (w : BudgetWorld) : Transition BudgetState BudgetAction where
  init s := s.runs = [] ∧ s.calls = []
  step s a s' := a.run w s = some s'

end WorkflowBoard.Budget
