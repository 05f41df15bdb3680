import Mathlib.Algebra.Ring.Nat
import WorkflowBoard.ForStd.Transition
import WorkflowBoard.Native.JsDate

/-!
# The provisioning lock (`agent-manager/src/lib/provision-lock.ts`)

`withProvisionDirectoryLock` is a lock between processes. A call makes the directory
`.provision.lock`, publishes a file under its own name in it and enters only if a listing then
shows that file alone. A directory that is left over is recovered: an empty one when it is old, an
owner's file when it is old and the process in its name is gone.

Each file-system call and each probe of a process is one step, and the steps of any number of
calls in any number of processes interleave. A call is suspended as long as it takes no step; when
a process crashes its calls take none any more. What the file system and the system answer (a
fault, the fresh token, the verdict of the probe) is part of the step.
-/

namespace WorkflowBoard.AgentManager

/-! ## Owner names -/

def ownerName (pid : Nat) (token : String) : String :=
  "owner-" ++ toString pid ++ "-" ++ token ++ ".json"

def isTokenChar (c : Char) : Bool := c.isDigit || ('a' ≤ c && c ≤ 'f') || c = '-'

/-- `/^owner-([1-9][0-9]*)-([0-9a-f-]{36})\.json$/` and `Number.isSafeInteger` of the match. -/
def ownerPid? (name : String) : Option Nat :=
  match name.toList.dropPrefix? "owner-".toList with
  | none => none
  | some cs =>
    let digits := cs.takeWhile Char.isDigit
    match cs.dropWhile Char.isDigit with
    | '-' :: rest =>
      let pid := Nat.ofDigitChars 10 digits 0
      if digits.head?.any (· ≠ '0') ∧ (rest.take 36).length = 36 ∧ (rest.take 36).all isTokenChar ∧
          rest.drop 36 = ".json".toList ∧ pid < 2 ^ 53 then some pid
      else none
    | _ => none

/-! ## State -/

structure ProvisionLockOptions where
  timeoutMs : Int
  staleMs : Int

structure OwnerFile where
  name : String
  mtimeMs : Date

structure LockDir where
  files : List OwnerFile
  mtimeMs : Date

structure LockProcess where
  pid : Nat
  alive : Bool

/-- The next step of a call. -/
inductive LockPhase where
  | mkdirRoot
  /-- the top of the loop -/
  | draw
  | mkdir (name : String)
  | write (name : String)
  | list (name : String)
  /-- `removeOwner` of a call that has not acquired; it goes on to throw or to recover -/
  | withdraw (name : String) (throws : Bool)
  | withdrawDir (throws : Bool)
  /-- in `fn` -/
  | inside (name : String)
  | release (name : String)
  | releaseDir
  /-- `recoverStaleOwners` -/
  | readdir
  | statDir
  | rmdirEmpty
  | examine (names : List String)
  | probe (name : String) (pid : Nat) (rest : List String)
  | unlinkStale (name : String) (rest : List String)
  | rmdirStale (rest : List String)
  /-- the deadline, and the pause -/
  | wait
  | returned
deriving DecidableEq

structure LockCall where
  process : Nat
  deadline : Date
  mkdirRetries : Nat := 0
  phase : LockPhase := .mkdirRoot

/-- `drawn` has every owner name that was ever in use; no step of the code depends on it. -/
structure LockState where
  dir : Option LockDir
  processes : List LockProcess
  calls : List LockCall
  now : Date
  drawn : List String

inductive FsFault where
  /-- `EPERM`, `EACCES` or `EBUSY` -/
  | busy
  /-- `ENOENT` -/
  | missing
  /-- any other error, before the call has had an effect -/
  | failed
  /-- any other error, after the file was created -/
  | late

/-- What a step meets outside. -/
structure LockOutside where
  fault : Option FsFault := none
  token : String := ""
  /-- `kill(pid, 0)` answers `ESRCH`. -/
  esrch : Bool := false

namespace LockState

def isAlive (s : LockState) (c : LockCall) : Bool :=
  (s.processes[c.process]?).any (·.alive)

def goto (s : LockState) (i : Nat) (c : LockCall) (phase : LockPhase) : LockState :=
  { s with calls := s.calls.set i { c with phase } }

/-- `unlink`; an error is swallowed by every caller. -/
def unlink (s : LockState) (name : String) (fault : Option FsFault) : LockState :=
  match s.dir, fault with
  | some d, none =>
    { s with dir := some { files := d.files.filter (·.name ≠ name), mtimeMs := s.now } }
  | _, _ => s

/-- `rmdir` of the lock directory, which has to be empty; an error is swallowed. -/
def rmdir (s : LockState) (fault : Option FsFault) : LockState :=
  match s.dir, fault with
  | some d, none => if d.files = [] then { s with dir := none } else s
  | _, _ => s

/-- `mkdir` of the lock directory. -/
def mkdirStep (s : LockState) (i : Nat) (c : LockCall) (name : String) (fault : Option FsFault) :
    LockState :=
  match fault, s.dir with
  | some .busy, _ =>
    if 80 ≤ c.mkdirRetries + 1 ∨ c.deadline ≤ s.now then s.goto i c .returned
    else s.goto i { c with mkdirRetries := c.mkdirRetries + 1 } .draw
  | some .missing, _ => s.goto i { c with mkdirRetries := 0 } .readdir
  | some _, _ => s.goto i c .returned
  | none, some _ => s.goto i { c with mkdirRetries := 0 } .readdir
  | none, none =>
    { s with dir := some { files := [], mtimeMs := s.now } }.goto i { c with mkdirRetries := 0 }
      (.write name)

/-- The exclusive `writeFile` of the own file. -/
def writeStep (s : LockState) (i : Nat) (c : LockCall) (name : String) (fault : Option FsFault) :
    LockState :=
  match fault, s.dir with
  | some .missing, _ => s.goto i c (.withdraw name false)
  | some .busy, _ | some .failed, _ => s.goto i c (.withdraw name true)
  | none, none | some .late, none => s.goto i c (.withdraw name false)
  | _, some d =>
    if d.files.any (·.name = name) then s.goto i c (.withdraw name false)
    else
      let d : LockDir := { files := d.files ++ [{ name, mtimeMs := s.now }], mtimeMs := s.now }
      { s with dir := some d }.goto i c
        (if fault = none then .list name else .withdraw name true)

/-- The listing that decides. -/
def listStep (s : LockState) (i : Nat) (c : LockCall) (name : String) (fault : Option FsFault) :
    LockState :=
  match fault, s.dir with
  | some .missing, _ | none, none => s.goto i c (.withdraw name false)
  | some _, _ => s.goto i c (.withdraw name true)
  | none, some d =>
    s.goto i c (if d.files.map (·.name) = [name] then .inside name else .withdraw name false)

/-- The `readdir` of `recoverStaleOwners`. -/
def readdirStep (s : LockState) (i : Nat) (c : LockCall) (fault : Option FsFault) : LockState :=
  match fault, s.dir with
  | none, some d =>
    s.goto i c (if d.files = [] then .statDir else .examine (d.files.map (·.name)))
  | _, _ => s.goto i c .wait

def statDirStep (s : LockState) (opts : ProvisionLockOptions) (i : Nat) (c : LockCall)
    (fault : Option FsFault) : LockState :=
  match fault, s.dir with
  | none, some d =>
    s.goto i c (if opts.staleMs < (s.now - d.mtimeMs : Int) then .rmdirEmpty else .wait)
  | _, _ => s.goto i c .wait

/-- One turn of the loop over the names, up to the probe. -/
def examineStep (s : LockState) (opts : ProvisionLockOptions) (i : Nat) (c : LockCall)
    (names : List String) (fault : Option FsFault) : LockState :=
  match names with
  | [] => s.goto i c .wait
  | name :: rest =>
    match ownerPid? name with
    | none => s.goto i c (.examine rest)
    | some pid =>
      match fault, s.dir.bind fun d => d.files.find? (·.name = name) with
      | none, some f =>
        s.goto i c
          (if (s.now - f.mtimeMs : Int) ≤ opts.staleMs then .examine rest
            else .probe name pid rest)
      | _, _ => s.goto i c .wait

/-- The next step of call `i`. -/
def advance (opts : ProvisionLockOptions) (s : LockState) (i : Nat) (c : LockCall)
    (o : LockOutside) : Except String LockState :=
  match c.phase with
  | .mkdirRoot => .ok (s.goto i c (if o.fault = none then .draw else .returned))
  | .draw =>
    match s.processes[c.process]? with
    | none => .error "no such process"
    | some p =>
      let name := ownerName p.pid o.token
      if name ∈ s.drawn then .error "owner names are unique"
      else .ok ({ s with drawn := s.drawn ++ [name] }.goto i c (.mkdir name))
  | .mkdir name => .ok (s.mkdirStep i c name o.fault)
  | .write name => .ok (s.writeStep i c name o.fault)
  | .list name => .ok (s.listStep i c name o.fault)
  | .withdraw name throws => .ok ((s.unlink name o.fault).goto i c (.withdrawDir throws))
  | .withdrawDir throws =>
    .ok ((s.rmdir o.fault).goto i c (if throws then .returned else .readdir))
  | .inside name => .ok (s.goto i c (.release name))
  | .release name => .ok ((s.unlink name o.fault).goto i c .releaseDir)
  | .releaseDir => .ok ((s.rmdir o.fault).goto i c .returned)
  | .readdir => .ok (s.readdirStep i c o.fault)
  | .statDir => .ok (s.statDirStep opts i c o.fault)
  | .rmdirEmpty => .ok ((s.rmdir o.fault).goto i c .wait)
  | .examine names => .ok (s.examineStep opts i c names o.fault)
  | .probe name pid rest =>
    if o.esrch then
      if s.processes.any fun p => p.alive && p.pid = pid then .error "the process is alive"
      else .ok (s.goto i c (.unlinkStale name rest))
    else .ok (s.goto i c (.examine rest))
  | .unlinkStale name rest => .ok ((s.unlink name o.fault).goto i c (.rmdirStale rest))
  | .rmdirStale rest => .ok ((s.rmdir o.fault).goto i c (.examine rest))
  | .wait => .ok (s.goto i c (if c.deadline ≤ s.now then .returned else .draw))
  | .returned => .error "returned"

/-- The heartbeat of a call in `fn`. It is not awaited, so it may come after `fn` has returned. -/
def heartbeat (s : LockState) (c : LockCall) : Except String LockState :=
  match c.phase with
  | .inside name | .release name =>
    .ok { s with dir := s.dir.map fun d =>
            { d with files := d.files.map fun f =>
                if f.name = name then { f with mtimeMs := s.now } else f } }
  | _ => .error "no heartbeat"

end LockState

inductive LockAction where
  | tick (now : Date)
  | spawn (pid : Nat)
  | crash (process : Nat)
  | call (process : Nat)
  | advance (i : Nat) (o : LockOutside)
  | heartbeat (i : Nat)

/-- Only a live process takes steps. -/
def LockState.act (opts : ProvisionLockOptions) (s : LockState) :
    LockAction → Except String LockState
  | .tick now => .ok { s with now }
  | .spawn pid => .ok { s with processes := s.processes ++ [{ pid, alive := true }] }
  | .crash p => .ok { s with processes := s.processes.modify p fun p => { p with alive := false } }
  | .call process =>
    let c : LockCall := { process, deadline := s.now + opts.timeoutMs }
    if s.isAlive c then .ok { s with calls := s.calls ++ [c] } else .error "no such process"
  | .advance i o =>
    match s.calls[i]? with
    | none => .error "no such call"
    | some c => if s.isAlive c then s.advance opts i c o else .error "crashed"
  | .heartbeat i =>
    match s.calls[i]? with
    | none => .error "no such call"
    | some c => if s.isAlive c then s.heartbeat c else .error "crashed"

/-- Any processes and any directory, with files whose names were drawn before. -/
def lockSystem (opts : ProvisionLockOptions) : Transition LockState LockAction where
  init s := s.calls = [] ∧ ∀ d, s.dir = some d → ∀ f ∈ d.files, f.name ∈ s.drawn
  step s a t := s.act opts a = .ok t

end WorkflowBoard.AgentManager
