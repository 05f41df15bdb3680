import WorkflowBoard.Native.Spend
import WorkflowBoard.Native.SqljsFlush

/-!
# Executing payments across processes and crashes (`marketing-spend.service.ts`, `execute`)

`execute` claims a request in one transaction, makes the claim durable, calls the payment
provider and records the outcome in another transaction. These are separate steps here, and
any number of executors (of requests just approved, of sweeps) interleave with all other
transactions of the service, with flushes and with crashes.

On a database server (Postgres, MySQL) a commit is durable at once and any number of
processes work on the store. A sql.js store lives in the memory of one process; its durable
form is the file that flushes write, and a crash goes back to it.
-/

namespace WorkflowBoard.Marketing

open Sqljs (FlushState FlushAction)

/-! ## State -/

inductive Backend where
  /-- Commits are durable when they return. -/
  | server
  | sqljs
deriving DecidableEq

/-- Where a call of `execute` that won the claim stands. -/
inductive ExecutorPhase where
  | claimed
  /-- `persistNow` waits for this flush. -/
  | persisting (flush : Nat)
  | persisted
  /-- `persistNow` threw; nothing will be sent. -/
  | unpersisted
  /-- The external call is under way. -/
  | sending
  | responded (outcome : PaymentOutcome)
  | done
deriving DecidableEq

/-- The external call may still be started. -/
def ExecutorPhase.mayStillSend : ExecutorPhase → Bool
  | .claimed | .persisting _ | .persisted => true
  | _ => false

/-- `claimedAt` is the number of the commit that moved the request to `executing`. -/
structure Executor where
  request : Uuid
  process : Nat
  claimedAt : Nat
  phase : ExecutorPhase

/-- The processes and their store. `calls` records, for the proofs, the requests whose external
    payment call was started, once for every start. -/
structure Cluster where
  backend : Backend
  store : FlushState Db
  executors : List Executor
  calls : List Uuid

namespace Cluster

def boot (backend : Backend) (db : Db) : Cluster := ⟨backend, .boot db, [], []⟩

/-- The database the transactions see. -/
def live (w : Cluster) : Db := w.store.mem

/-- What is left after a crash. -/
def durable (w : Cluster) : Db := w.store.file

def setPhase (w : Cluster) (i : Nat) (e : Executor) (phase : ExecutorPhase) : Cluster :=
  { w with executors := w.executors.set i { e with phase := phase } }

/-- A commit of the store. On sql.js it ends the open transaction, or is a statement outside one. -/
def commit (w : Cluster) (db : Db) : Except String Cluster :=
  match w.backend with
  | .server =>
    .ok { w with store :=
      { w.store.commitImage db with file := db, fileAt := w.store.commits + 1 } }
  | .sqljs => do
    let store ← FlushAction.run w.store
      (.statement (if w.store.transactionOpen then .commit db else .write db))
    return { w with store := store }

end Cluster

/-! ## Steps -/

variable (env : SpendEnv)

def txError {α : Type} (x : Tx α) : Except String α := x.mapError (·.message)

/-- A transaction of the service. -/
def transact (w : Cluster) (a : SpendAction) : Except String Cluster := do
  let db ← txError (a.run env w.live)
  w.commit db

/-- The claim of `execute`. Only the executor that wins it goes on. -/
def claim (w : Cluster) (process : Nat) (id : Uuid) (planProblem : Option String) (now : Date) :
    Except String Cluster := do
  let (db, won) ← txError (executeClaim env w.live id planProblem now)
  let w' ← w.commit db
  return if won then
    { w' with executors := w'.executors ++ [⟨id, process, w'.store.commits, .claimed⟩] }
  else w'

/-- `persistNow`: a forced flush outside any turn, and nothing on a database server. -/
def persistNow (w : Cluster) (i : Nat) : Except String Cluster := do
  let e ← orThrow w.executors[i]? "no such executor"
  require (e.phase == .claimed) "not claimed"
  return match w.backend with
    | .server => w.setPhase i e .persisted
    | .sqljs =>
      { w.setPhase i e (.persisting w.store.flushes.length) with
        store := Sqljs.flushSqljs w.store true false }

/-- Where the executor goes on when the flush it waits for has returned or thrown. -/
def afterPersist (store : FlushState Db) : ExecutorPhase → Option ExecutorPhase
  | .persisting f =>
    match store.phase f with
    | some (.returned _) => some .persisted
    | some .threw => some .unpersisted
    | _ => none
  | _ => none

def persistEnds (w : Cluster) (i : Nat) : Except String Cluster := do
  let e ← orThrow w.executors[i]? "no such executor"
  let phase ← orThrow (afterPersist w.store e.phase) "still persisting"
  return w.setPhase i e phase

/-- The external call starts. -/
def send (w : Cluster) (i : Nat) : Except String Cluster := do
  let e ← orThrow w.executors[i]? "no such executor"
  require (e.phase == .persisted) "not persisted"
  return { w.setPhase i e .sending with calls := w.calls ++ [e.request] }

/-- `PaymentNotSentError`: the credential could not be read, or has changed. -/
def notSent (w : Cluster) (i : Nat) (error : String) : Except String Cluster := do
  let e ← orThrow w.executors[i]? "no such executor"
  require (e.phase == .persisted) "not persisted"
  return w.setPhase i e (.responded (.failed ("not sent: " ++ error) .empty))

/-- The external call ends: an answer, a timeout, an error. -/
def respond (w : Cluster) (i : Nat) (outcome : PaymentOutcome) : Except String Cluster := do
  let e ← orThrow w.executors[i]? "no such executor"
  require (e.phase == .sending) "not sending"
  return w.setPhase i e (.responded outcome)

/-- The last transaction of an executor: the outcome is recorded, or a claim that could not be
    made durable is closed. -/
def conclude (w : Cluster) (i : Nat) : Except String Cluster := do
  let e ← orThrow w.executors[i]? "no such executor"
  let a ← orThrow (match e.phase with
    | .responded outcome => some (SpendAction.recordOutcome e.request outcome)
    | .unpersisted => some (.closeUnpersisted e.request)
    | _ => none) "not finished"
  let w' ← transact env w a
  return w'.setPhase i e .done

/-- A process dies with its executors. On sql.js it is the only one, and the store goes back to
    the file. -/
def crash (w : Cluster) (process : Nat) : Cluster :=
  match w.backend with
  | .server => { w with executors := w.executors.filter (·.process != process) }
  | .sqljs => { w with store := w.store.crash, executors := [] }

/-! ## The system -/

/-- The transactions that only `execute` runs. -/
def SpendAction.isExecution : SpendAction → Bool
  | .executeClaim .. | .closeUnpersisted .. | .recordOutcome .. => true
  | _ => false

inductive ClusterAction where
  /-- A statement that commits nothing, or a step of a flush, on sql.js. -/
  | store (a : FlushAction Db)
  | transact (a : SpendAction)
  | claim (process : Nat) (id : Uuid) (planProblem : Option String) (now : Date)
  | persistNow (i : Nat)
  | persistEnds (i : Nat)
  | send (i : Nat)
  | notSent (i : Nat) (error : String)
  | respond (i : Nat) (outcome : PaymentOutcome)
  | conclude (i : Nat)
  | crash (process : Nat)

def ClusterAction.run (w : Cluster) : ClusterAction → Except String Cluster
  | .store a => do
    require (w.backend == .sqljs && !a.commits w.store) "not a step of the store alone"
    let store ← a.run w.store
    return { w with store := store }
  | .transact a => do
    require (!a.isExecution) "a transaction of an executor"
    Marketing.transact env w a
  | .claim process id planProblem now => Marketing.claim env w process id planProblem now
  | .persistNow i => Marketing.persistNow w i
  | .persistEnds i => Marketing.persistEnds w i
  | .send i => Marketing.send w i
  | .notSent i error => Marketing.notSent w i error
  | .respond i outcome => Marketing.respond w i outcome
  | .conclude i => Marketing.conclude env w i
  | .crash process => return Marketing.crash w process

/-- All runs over a store, whatever is in it at first. -/
def clusterSystem : Transition Cluster ClusterAction where
  init w := ∃ backend db, w = .boot backend db
  step w a w' := a.run env w = .ok w'

end WorkflowBoard.Marketing
