import WorkflowBoard.ForStd.Transition
import WorkflowBoard.Native.JsDate
import WorkflowBoard.Native.JsString

/-!
# Work a restart interrupted (`agent-manager/src/lib/restart-resume.ts`)

Before a planned restart the manager saves what it interrupts in `restart-resume.json`; the new
process reads the file, hands the record to the server once it is connected and then deletes the
file. Writing and reading are synchronous; a delivery is suspended between its request and the
answer.

The file is written by `writeRestartResume` only, so it is modelled by the record it holds:
`version` is always 1, the three arrays are arrays, and `saved_at` is the instant its ISO text
names. Log texts are left out.
-/

namespace WorkflowBoard.AgentManager

/-- `RESTART_RESUME_TTL_MS`. -/
def restartResumeTtlMs : Int := 6 * 60 * 60000

inductive InterruptedState where
  | turn
  | awaitingPermission
  | awaitingInput
deriving DecidableEq

structure InterruptedAgentSession where
  cli : String
  sessionId : String
  cwd : String
  title : String
  state : InterruptedState
  turnStartedAt : Option String
deriving DecidableEq

structure InterruptedTicket where
  ticketId : String
  role : String
  agentId : String
deriving DecidableEq

structure RestartResumeRecord where
  reason : String
  savedAt : Date
  fromVersion : String
  sessions : List InterruptedAgentSession
  tickets : List InterruptedTicket
deriving DecidableEq

/-- The key under which the record keeps a session once. -/
def InterruptedAgentSession.key (s : InterruptedAgentSession) : String :=
  s.cli ++ "\x00" ++ s.sessionId

/-- The key under which the record keeps a ticket once. -/
def InterruptedTicket.key (t : InterruptedTicket) : String := t.ticketId ++ "\x00" ++ t.role

/-- `uniqueBy`: the first item of each key. -/
def uniqueBy {α : Type*} (key : α → String) (items : List α) : List α :=
  items.foldl (fun seen item =>
    if seen.any fun other => key other = key item then seen else seen ++ [item]) []

/-! ## Reading -/

/-- `str(v, max)` of a string. -/
def str (v : String) (max : Nat := 1024) : String := sliceText max v

/-- `str(v, max) || other`. -/
def strOr (v : String) (max : Nat) (other : String) : String :=
  if str v max = "" then other else str v max

def InterruptedAgentSession.isRead (s : InterruptedAgentSession) : Bool :=
  str s.cli ≠ "" && str s.sessionId ≠ ""

def InterruptedAgentSession.clean (s : InterruptedAgentSession) : InterruptedAgentSession where
  cli := str s.cli 64
  sessionId := str s.sessionId 256
  cwd := str s.cwd
  title := str s.title 256
  state := s.state
  turnStartedAt := (s.turnStartedAt.map fun v => str v 64).filter (· ≠ "")

def InterruptedTicket.isRead (t : InterruptedTicket) : Bool := str t.ticketId ≠ ""

def InterruptedTicket.clean (t : InterruptedTicket) : InterruptedTicket where
  ticketId := str t.ticketId 64
  role := str t.role 64
  agentId := str t.agentId 128

/-- What the reader makes of a record in the file. -/
def RestartResumeRecord.clean (r : RestartResumeRecord) : RestartResumeRecord where
  reason := strOr r.reason 64 "manager_restart"
  savedAt := r.savedAt
  fromVersion := str r.fromVersion 64
  sessions := (r.sessions.filter (·.isRead)).map (·.clean)
  tickets := (r.tickets.filter (·.isRead)).map (·.clean)

/-- The record read, and the file after it: an expired record is removed. -/
def readRestartResume (file : Option RestartResumeRecord) (nowMs : Date) :
    Option RestartResumeRecord × Option RestartResumeRecord :=
  match file with
  | none => (none, none)
  | some raw =>
    if restartResumeTtlMs < (nowMs - raw.savedAt : Int) then (none, none)
    else (some raw.clean, some raw)

/-! ## Writing and delivering -/

/-- The file after the record was saved. -/
def writeRestartResume (record : RestartResumeRecord) (file : Option RestartResumeRecord)
    (nowMs : Date) : Option RestartResumeRecord :=
  let (pending, file) := readRestartResume file nowMs
  let merged : RestartResumeRecord :=
    match pending with
    | some pending =>
      { pending with
        sessions := uniqueBy (·.key) (pending.sessions ++ record.sessions)
        tickets := uniqueBy (·.key) (pending.tickets ++ record.tickets) }
    | none => record
  if merged.sessions = [] ∧ merged.tickets = [] then file else some merged

inductive PostStatus where
  | ok
  | retry
  | rejected
deriving DecidableEq

/-- `postRestartResume`, from the HTTP status; without one the request threw. -/
def postRestartResume : Option Nat → PostStatus
  | none => .retry
  | some status =>
    if 200 ≤ status ∧ status < 300 then .ok
    else if 500 ≤ status ∨ status = 408 ∨ status = 429 then .retry
    else .rejected

/-! ## Runs -/

/-- What a record is about, by the keys of `uniqueBy`. -/
inductive ResumeItem where
  | session (key : String)
  | ticket (key : String)
deriving DecidableEq

def RestartResumeRecord.items (r : RestartResumeRecord) : List ResumeItem :=
  r.sessions.map (.session ·.key) ++ r.tickets.map (.ticket ·.key)

inductive ResumeEvent where
  | wrote (record : RestartResumeRecord) (time : Date)
  | handed (record : RestartResumeRecord)
  | refused (record : RestartResumeRecord)
deriving DecidableEq

/-- A record that was read, and what has been written since. No step depends on `since`. -/
structure ReadRecord where
  record : RestartResumeRecord
  since : List ResumeItem

/-- `held` are the records the process has read and `sends` the deliveries that await the server.
    `mergedAt`, the time of the last write that added work to the file, and the events record the
    run. -/
structure ResumeState where
  file : Option RestartResumeRecord
  now : Date
  held : List ReadRecord
  sends : List ReadRecord
  mergedAt : Date
  events : List ResumeEvent

inductive ResumeAction where
  | tick (now : Date)
  /-- The hook of a planned restart; it takes the time for `saved_at`. -/
  | write (reason fromVersion : String) (sessions : List InterruptedAgentSession)
      (tickets : List InterruptedTicket)
  | read
  | deliver (i : Nat)
  | answer (i : Nat) (status : Option Nat)
  | restart

namespace ResumeState

def write (s : ResumeState) (record : RestartResumeRecord) : ResumeState :=
  let note (d : ReadRecord) : ReadRecord := { d with since := d.since ++ record.items }
  { s with
    file := writeRestartResume record s.file s.now
    held := s.held.map note
    sends := s.sends.map note
    mergedAt := if record.items = [] then s.mergedAt else s.now
    events := s.events ++ [.wrote record s.now] }

def read (s : ResumeState) : ResumeState :=
  let (record, file) := readRestartResume s.file s.now
  { s with file, held := s.held ++ (record.map fun record => ⟨record, []⟩).toList }

/-- The end of `deliverRestartResume`. -/
def answer (s : ResumeState) (i : Nat) (d : ReadRecord) (status : Option Nat) : ResumeState :=
  let s := { s with sends := s.sends.eraseIdx i }
  match postRestartResume status with
  | .retry => s
  | .ok => { s with file := none, events := s.events ++ [.handed d.record] }
  | .rejected => { s with file := none, events := s.events ++ [.refused d.record] }

def act (s : ResumeState) : ResumeAction → Except String ResumeState
  | .tick now => if now < s.now then .error "the clock went back" else .ok { s with now }
  | .write reason fromVersion sessions tickets =>
    .ok (s.write { reason, savedAt := s.now, fromVersion, sessions, tickets })
  | .read => .ok s.read
  | .deliver i =>
    match s.held[i]? with
    | none => .error "no such record"
    | some d => .ok { s with sends := s.sends ++ [d] }
  | .answer i status =>
    match s.sends[i]? with
    | none => .error "no such delivery"
    | some d => .ok (s.answer i d status)
  | .restart => .ok { s with held := [], sends := [] }

end ResumeState

def resumeSystem : Transition ResumeState ResumeAction where
  init s := s.file = none ∧ s.held = [] ∧ s.sends = [] ∧ s.events = []
  step s a t := s.act a = .ok t

end WorkflowBoard.AgentManager
