import WorkflowBoard.ForStd.Except
import WorkflowBoard.ForStd.Transition

/-!
# The sql.js work queue (`db.ts`, `serializeSqljsTransactions`)

All work on the one sql.js connection goes through a queue of turns. A turn is opened by the
first piece of work, takes in everything that work starts while the turn is held, and is
released when all of it has settled.

Turns and pieces of work are numbered in the order they are created. A piece of work runs
under a value of the `AsyncLocalStorage` (`store`), which everything it starts inherits, also
after its own promise has settled: `call` therefore takes the piece of work in whose
asynchronous tree the caller runs, settled or not. Each stretch of the source between two
`await`s is one step.

`order` and `releases` are bookkeeping: the turns in the order they began, and how often a
turn's `release` was called. What `release` resolves is the promise `ahead` refers to.
-/

namespace WorkflowBoard.Sqljs

/-! ## Read statements -/

/-- `\s` of a JavaScript regular expression. -/
def isRegexSpace (c : Char) : Bool :=
  let n := c.toNat
  (0x09 ≤ n && n ≤ 0x0D) || n == 0x20 || n == 0xA0 || n == 0x1680 || (0x2000 ≤ n && n ≤ 0x200A) ||
    n == 0x2028 || n == 0x2029 || n == 0x202F || n == 0x205F || n == 0x3000 || n == 0xFEFF

/-- `\w` of a JavaScript regular expression. -/
def isWordChar (c : Char) : Bool := c.isAlphanum || c == '_'

/-- `text` starts with `word`, in any case, and the word ends there. -/
def startsWithWord (text : List Char) (word : String) : Bool :=
  (text.take word.length).map Char.toLower == word.toList &&
    !(text.drop word.length).head?.any isWordChar

/-- One of `words` stands somewhere in the text, as a whole word. -/
def hasWord (words : List String) : (inWord : Bool) → List Char → Bool
  | _, [] => false
  | inWord, c :: text =>
    (!inWord && words.any (startsWithWord (c :: text))) || hasWord words (isWordChar c) text

def isSqljsReadStatement (sql : String) : Bool :=
  let text := sql.toList.dropWhile isRegexSpace
  startsWithWord text "select" ||
    (startsWithWord text "with" &&
      !hasWord ["insert", "update", "delete", "replace"] false sql.toList)

/-! ## State -/

structure SqljsTurn where
  active : Bool
  pending : Int
  /-- The turn whose release this one waits for. -/
  ahead : Option Nat
  /-- The piece of work that opened it. -/
  opener : Nat
  releases : Nat

inductive WorkPhase where
  /-- In the queue: its turn has not come. -/
  | queued
  | running
  /-- The promise has settled; the `finally` of `within` has not run. -/
  | settled (ok : Bool)
  /-- The `finally` of `within` has run. -/
  | finalized (ok : Bool)
deriving DecidableEq

/-- Started, and still counted by its turn. -/
def WorkPhase.isPending : WorkPhase → Bool
  | .running | .settled _ => true
  | _ => false

def WorkPhase.hasSettled : WorkPhase → Bool
  | .settled _ | .finalized _ => true
  | _ => false

structure Work where
  /-- The piece of work in whose asynchronous tree this one was started. -/
  origin : Option Nat
  /-- The turn that `reentry.getStore()` gives inside it. -/
  store : Option Nat
  /-- The turn it belongs to. A read belongs to none. -/
  turn : Option Nat
  phase : WorkPhase

structure QueueState where
  turns : List SqljsTurn
  /-- The turn whose `released` promise is the tail of the queue; at first a resolved one. -/
  tail : Option Nat
  work : List Work
  order : List Nat

def QueueState.empty : QueueState := ⟨[], none, [], []⟩

/-! ## Operations -/

variable (s : QueueState)

/-- `reentry.getStore()` where the caller runs. -/
def getStore (origin : Option Nat) : Option Nat :=
  origin.bind fun i => (s.work[i]?).bind (·.store)

/-- `heldTurn`: the turn of the calling chain, while it is active. -/
def heldTurn (origin : Option Nat) : Option Nat :=
  (getStore s origin).filter fun t => (s.turns[t]?).any (·.active)

/-- `release`. -/
def SqljsTurn.release (turn : SqljsTurn) : SqljsTurn :=
  { turn with active := false, releases := turn.releases + 1 }

/-- The `finally` of `within`. -/
def SqljsTurn.finish (turn : SqljsTurn) : SqljsTurn :=
  let turn := { turn with pending := turn.pending - 1 }
  if turn.pending = 0 then turn.release else turn

/-- `turn.pending += 1`. -/
def SqljsTurn.hold (turn : SqljsTurn) : SqljsTurn :=
  { turn with pending := turn.pending + 1 }

/-- `enqueue`: work inside a held turn starts at once, other work opens a turn at the tail. -/
def enqueue (origin : Option Nat) : QueueState :=
  match heldTurn s origin with
  | some t =>
    { s with
      turns := s.turns.modify t (·.hold)
      work := s.work ++ [⟨origin, some t, some t, .running⟩] }
  | none =>
    let t := s.turns.length
    { s with
      turns := s.turns ++ [⟨true, 0, s.tail, s.work.length, 0⟩]
      work := s.work ++ [⟨origin, some t, some t, .queued⟩]
      tail := some t }

/-- The entry points of the serialized data source. -/
inductive SqljsCall where
  /-- A manager's `transaction`, `save`, `remove`, `softRemove`, `recover`; a data source's
      `synchronize`, `runMigrations`, `undoLastMigration`, `dropDatabase`; or the work given to
      `afterSqljsTransactions`. -/
  | method
  /-- `query` of the shared runner. -/
  | query (sql : String)
  /-- `startTransaction` of the shared runner. -/
  | startTransaction

def unqueuedTransactionError : String :=
  "sql.js: open transactions with dataSource.transaction() — a transaction started outside the " ++
  "transaction queue (queryRunner.startTransaction(), QueryBuilder.useTransaction()) would take " ++
  "in other requests' writes on the only connection"

/-- A call from the tree of the started work `origin`, or from outside any work. -/
def call (origin : Option Nat) : SqljsCall → Except String QueueState
  | .method => return enqueue s origin
  | .query sql =>
    return if isSqljsReadStatement sql then
      -- a read runs at once, whoever holds the turn
      { s with work := s.work ++ [⟨origin, getStore s origin, none, .running⟩] }
    else enqueue s origin
  | .startTransaction => do
    -- its `BEGIN` is a `query` of its own
    require (heldTurn s origin).isSome unqueuedTransactionError
    return s

/-- The work has been started: its body and what that started can call. -/
def hasStarted (i : Nat) : Bool := (s.work[i]?).any (·.phase != .queued)

/-- The `released` promise of a turn is resolved. The promise the first turn waits for is. -/
def isReleased (ahead : Option Nat) : Bool :=
  ahead.all fun t => (s.turns[t]?).any (0 < ·.releases)

/-- The callback of `startAfter`: the promise `ahead` is resolved and the opener starts. -/
def beginTurn (t : Nat) : Except String QueueState := do
  let turn ← orThrow s.turns[t]? "no such turn"
  let opener ← orThrow s.work[turn.opener]? "no such work"
  require (isReleased s turn.ahead && opener.phase == .queued) "not its turn"
  return { s with
    turns := s.turns.modify t (·.hold)
    work := s.work.set turn.opener { opener with phase := .running }
    order := s.order ++ [t] }

/-- The promise of the work settles: its body returned or threw. -/
def settle (i : Nat) (ok : Bool) : Except String QueueState := do
  let w ← orThrow s.work[i]? "no such work"
  require (w.phase == .running) "not running"
  return { s with work := s.work.set i { w with phase := .settled ok } }

/-- The `finally` of `within` runs for settled work of a turn. -/
def finalize (i : Nat) : Except String QueueState := do
  let w ← orThrow s.work[i]? "no such work"
  let t ← orThrow w.turn "a read"
  let ok ← orThrow (match w.phase with | .settled ok => some ok | _ => none) "not settled"
  return { s with
    turns := s.turns.modify t (·.finish)
    work := s.work.set i { w with phase := .finalized ok } }

/-! ## The system -/

inductive QueueAction where
  | call (origin : Option Nat) (c : SqljsCall)
  | beginTurn (t : Nat)
  | settle (i : Nat) (ok : Bool)
  | finalize (i : Nat)

def QueueAction.run : QueueAction → Except String QueueState
  | .call origin c => do
    require (origin.all (hasStarted s)) "not started"
    Sqljs.call s origin c
  | .beginTurn t => Sqljs.beginTurn s t
  | .settle i ok => Sqljs.settle s i ok
  | .finalize i => Sqljs.finalize s i

/-- All runs of the serialized data source, with any callers. -/
def queueSystem : Transition QueueState QueueAction where
  init s := s = .empty
  step s a s' := a.run s = .ok s'

end WorkflowBoard.Sqljs
