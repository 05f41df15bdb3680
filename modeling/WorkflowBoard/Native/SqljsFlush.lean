import WorkflowBoard.ForStd.Except
import WorkflowBoard.ForStd.Transition

/-!
# The sql.js flush (`db.ts`, `flushSqljs` / `doSqljsExport` / `exportSqljsWhenIdle`)

A sql.js database lives in memory; a flush writes its image to a file. The model has one
connection of one process. Every stretch of the source between two `await`s is one step, so
any number of flushes interleave with statements and with each other at exactly the points
where the source suspends.

The images are opaque here (`D`): the flush never looks into them. A file that does not
exist yet counts as the image an empty database has, which is what a boot would load.

Two fields are bookkeeping of the model and no step reads them: the committed images are
numbered (`log`), and `commits`/`fileAt` say which of them memory and file hold.
-/

namespace WorkflowBoard.Sqljs

variable {D : Type}

/-! ## State -/

/-- Where one call of `flushSqljs` stands. -/
inductive FlushPhase (D : Type) where
  /-- A forced flush that waits out the flush `other`. -/
  | awaiting (other : Nat)
  /-- `exportSqljsWhenIdle` waits for its turn, for the previous file write and until no
      transaction is open. -/
  | exporting
  /-- The image, the `number`-th commit, is being written to the file. `restoreFailed`: the
      `foreign_keys` restore right after the export threw. -/
  | writing (image : D) (number : Nat) (restoreFailed : Bool)
  /-- `exportSqljsWhenIdle` resolved or threw; `doSqljsExport` has not continued yet. -/
  | exported (ok : Bool)
  /-- `doSqljsExport` resolved or threw; the `finally` of `flushSqljs` has not run yet. -/
  | settled (ok : Bool)
  | returned (saved : Bool)
  | threw

/-- The promise that `doSqljsExport` returned is not settled. -/
def FlushPhase.exportInFlight : FlushPhase D → Bool
  | .exporting | .writing .. | .exported _ => true
  | _ => false

/-- The promise that `doSqljsExport` returned is settled. -/
def FlushPhase.exportSettled : FlushPhase D → Bool
  | .settled _ | .returned _ | .threw => true
  | _ => false

/-- A file write is in progress. -/
def FlushPhase.isWriting : FlushPhase D → Bool
  | .writing .. => true
  | _ => false

/-- One call of `flushSqljs`. `calledAt` is the number of commits when it was called. -/
structure Flush (D : Type) where
  force : Bool
  holdsTurn : Bool
  calledAt : Nat
  phase : FlushPhase D

/-- The entry of `sqljsFileWrites`: the file write of the latest export. -/
structure FileWrite where
  writer : Nat
  done : Bool

structure FlushState (D : Type) where
  /-- The committed database. -/
  mem : D
  transactionOpen : Bool
  sqljsDirty : Bool
  /-- The flush whose promise `sqljsFlushInFlight` holds. -/
  sqljsFlushInFlight : Option Nat
  sqljsFileWrites : Option FileWrite
  /-- The last successfully written file. -/
  file : D
  flushes : List (Flush D)
  log : Nat → D
  commits : Nat
  fileAt : Nat

namespace FlushState

/-- A process that has just loaded `file`. -/
def boot (file : D) : FlushState D where
  mem := file
  transactionOpen := false
  sqljsDirty := false
  sqljsFlushInFlight := none
  sqljsFileWrites := none
  file := file
  flushes := []
  log := fun _ => file
  commits := 0
  fileAt := 0

/-- The process dies and a new one loads the file. What was committed after the image in the
    file is gone, and so are all flushes. -/
def crash (s : FlushState D) : FlushState D :=
  { boot s.file with
    log := s.log
    commits := s.fileAt
    fileAt := s.fileAt }

/-- The committed database becomes `d`. -/
def commitImage (s : FlushState D) (d : D) : FlushState D :=
  { s with
    mem := d
    log := Function.update s.log (s.commits + 1) d
    commits := s.commits + 1 }

def setPhase (s : FlushState D) (i : Nat) (phase : FlushPhase D) : FlushState D :=
  { s with flushes := s.flushes.modify i fun f => { f with phase := phase } }

/-- A new flush, called now. -/
def called (s : FlushState D) (force holdsTurn : Bool) (phase : FlushPhase D) : FlushState D :=
  { s with flushes := s.flushes ++ [⟨force, holdsTurn, s.commits, phase⟩] }

def phase (s : FlushState D) (i : Nat) : Option (FlushPhase D) :=
  (s.flushes[i]?).map (·.phase)

end FlushState

/-! ## Statements -/

/-- The statements the runner sends, by what they do to the connection. -/
inductive Statement (D : Type) where
  | select
  | pragma
  | begin
  /-- Any other statement. Outside a transaction it commits `d` by itself. -/
  | write (d : D)
  | commit (d : D)
  | rollback

/-- `SqljsWriteSubscriber.afterQuery`: everything but `SELECT` and `PRAGMA` marks dirty. It
    runs in the same synchronous step as the statement. -/
def afterQuery (st : Statement D) (s : FlushState D) : FlushState D :=
  match st with
  | .select | .pragma => s
  | _ => { s with sqljsDirty := true }

/-- What SQLite does with a statement that succeeds. -/
def execute (s : FlushState D) : Statement D → Except String (FlushState D)
  | .select | .pragma => .ok s
  | .begin => do
    require (!s.transactionOpen) "cannot start a transaction within a transaction"
    return { s with transactionOpen := true }
  | .write d => .ok (if s.transactionOpen then s else s.commitImage d)
  | .commit d => do
    require s.transactionOpen "cannot commit - no transaction is active"
    return { s.commitImage d with transactionOpen := false }
  | .rollback => do
    require s.transactionOpen "cannot rollback - no transaction is active"
    return { s with transactionOpen := false }

/-! ## Flush -/

/-- `doSqljsExport` is called and its promise becomes the flush in flight. -/
def startExport (s : FlushState D) (i : Nat) : FlushState D :=
  { s.setPhase i .exporting with sqljsFlushInFlight := some i }

/-- `flushSqljs` up to its first `await`. -/
def flushSqljs (s : FlushState D) (force holdsTurn : Bool) : FlushState D :=
  match s.sqljsFlushInFlight with
  | some other =>
    if !force then s.called force holdsTurn (.returned false)
    -- inside a transaction the export in flight is queued behind that transaction
    else if !holdsTurn then s.called force holdsTurn (.awaiting other)
    else startExport (s.called force holdsTurn .exporting) s.flushes.length
  | none =>
    if !force && !s.sqljsDirty then s.called force holdsTurn (.returned false)
    else startExport (s.called force holdsTurn .exporting) s.flushes.length

/-- The forced flush `i` continues: the one it waited for has settled, whatever its result. -/
def resume (s : FlushState D) (i : Nat) : Except String (FlushState D) :=
  match s.phase i with
  | some (.awaiting other) => do
    require ((s.phase other).any (·.exportSettled)) "still in flight"
    return startExport s i
  | _ => .error "not waiting"

/-- `exportSqljsWhenIdle` has its turn: in one synchronous step it sees that no file write is
    in progress and no transaction is open, marks clean, and exports. `foreignKeysOk` is false
    when `foreignKeysAfterExport` throws, which it does before the export. -/
def takeSnapshot (s : FlushState D) (i : Nat) (foreignKeysOk restoreFailed : Bool) :
    Except String (FlushState D) :=
  match s.phase i with
  | some .exporting => do
    require (s.sqljsFileWrites.all (·.done)) "the previous export is still writing"
    require (!s.transactionOpen) "a transaction is open"
    let s := { s with sqljsDirty := false }
    return if foreignKeysOk then
      { s.setPhase i (.writing s.mem s.commits restoreFailed) with
        sqljsFileWrites := some ⟨i, false⟩ }
    else s.setPhase i (.exported false)
  | _ => .error "not exporting"

/-- The export gives up: a transaction stayed open past the deadline, or asking SQLite whether
    one is open failed. -/
def exportSkipped (s : FlushState D) (i : Nat) : Except String (FlushState D) :=
  match s.phase i with
  | some .exporting => .ok (s.setPhase i (.exported false))
  | _ => .error "not exporting"

/-- The promise of `saveDatabase()` settles. Its first reaction sets `done`. A restore that
    failed is reported after the write's own outcome. -/
def writeSettled (s : FlushState D) (i : Nat) (ok : Bool) : Except String (FlushState D) :=
  match s.phase i with
  | some (.writing image number restoreFailed) =>
    let s := { s with
      sqljsFileWrites := s.sqljsFileWrites.map fun (w : FileWrite) =>
        if w.writer == i then { w with done := true } else w }
    .ok (if ok then
      { s.setPhase i (.exported (!restoreFailed)) with file := image, fileAt := number }
      else s.setPhase i (.exported false))
  | _ => .error "not writing"

/-- `doSqljsExport` continues: a failure marks dirty again. -/
def settleExport (s : FlushState D) (i : Nat) : Except String (FlushState D) :=
  match s.phase i with
  | some (.exported ok) =>
    .ok { s.setPhase i (.settled ok) with sqljsDirty := s.sqljsDirty || !ok }
  | _ => .error "not exported"

/-- The `finally` of `flushSqljs`: only the current flush clears `sqljsFlushInFlight`. -/
def finishFlush (s : FlushState D) (i : Nat) : Except String (FlushState D) :=
  match s.phase i with
  | some (.settled ok) =>
    .ok { s.setPhase i (if ok then .returned true else .threw) with
      sqljsFlushInFlight :=
        if s.sqljsFlushInFlight = some i then none else s.sqljsFlushInFlight }
  | _ => .error "not settled"

/-! ## The system -/

inductive FlushAction (D : Type) where
  | statement (st : Statement D)
  /-- A statement fails; SQLite may end the open transaction with it. -/
  | statementFails (rolledBack : Bool)
  | flush (force holdsTurn : Bool)
  | resume (i : Nat)
  | takeSnapshot (i : Nat) (foreignKeysOk restoreFailed : Bool)
  | exportSkipped (i : Nat)
  | writeSettled (i : Nat) (ok : Bool)
  | settleExport (i : Nat)
  | finishFlush (i : Nat)

/-- Whether the step commits an image. -/
def FlushAction.commits (s : FlushState D) : FlushAction D → Bool
  | .statement (.commit _) => true
  | .statement (.write _) => !s.transactionOpen
  | _ => false

def FlushAction.run (s : FlushState D) : FlushAction D → Except String (FlushState D)
  | .statement st => afterQuery st <$> execute s st
  | .statementFails rolledBack =>
    .ok { s with transactionOpen := s.transactionOpen && !rolledBack }
  | .flush force holdsTurn => .ok (flushSqljs s force holdsTurn)
  | .resume i => Sqljs.resume s i
  | .takeSnapshot i foreignKeysOk restoreFailed =>
    Sqljs.takeSnapshot s i foreignKeysOk restoreFailed
  | .exportSkipped i => Sqljs.exportSkipped s i
  | .writeSettled i ok => Sqljs.writeSettled s i ok
  | .settleExport i => Sqljs.settleExport s i
  | .finishFlush i => Sqljs.finishFlush s i

/-- All runs of one process over its file. -/
def flushSystem (D : Type) : Transition (FlushState D) (FlushAction D) where
  init s := ∃ file, s = .boot file
  step s a s' := a.run s = .ok s'

end WorkflowBoard.Sqljs
