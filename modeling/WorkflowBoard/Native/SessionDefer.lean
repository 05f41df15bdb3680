import WorkflowBoard.ForStd.Transition
import WorkflowBoard.Native.JsDate

/-!
# The session-limit defer store (`agent-manager/src/lib/session-limit-defer.ts`)

While an agent is over its session limit, re-dispatches are kept as intents, one for each
(ticket, role, agent); a timer at the end of the window hands them to the resume handler.
A replay runs on its own and is acknowledged when the handler resolves. Each method is
synchronous and is one step; a replay adds the steps at which it reports a pid, resolves or
throws.

The resume handler is wired before `load`, so a replay that starts is handed over. Texts that
nothing reads (reason, label, first instant) are left out. Four fields record the run and no
step depends on them: the acceptances of an intent (`accepted`), the number of the replay that
holds a key of `inFlightReplay`, the counter that numbers both (`ticks`), and whether the last
write of the file succeeded (`written`).
-/

namespace WorkflowBoard.AgentManager

inductive SessionDeferIntentKind where
  | trigger
  | mention
deriving DecidableEq

inductive SessionDeferIntentStatus where
  | pending
  | dispatching
deriving DecidableEq

/-- `accepted` has an entry for each call of `addPendingIntent` that created the intent or was
    coalesced into it: its number, and whether no earlier replay of the key was outstanding. -/
structure SessionDeferIntent where
  key : String
  raw : String
  ticketId : String
  role : String
  agentId : String
  kind : SessionDeferIntentKind
  status : SessionDeferIntentStatus
  spawnedPid : Option Nat
  accepted : List (Nat × Bool)
deriving DecidableEq

structure AgentDeferRecord where
  agentId : String
  deferUntilMs : Int
  intents : List SessionDeferIntent
deriving DecidableEq

structure InflightDispatchMeta where
  ticketId : String
  role : String
  agentId : String

/-- `InflightDispatchTracker.key`. -/
def InflightDispatchMeta.key (m : InflightDispatchMeta) : String :=
  let role := if m.role = "" then "_" else m.role
  let agentId := if m.agentId = "" then "_" else m.agentId
  m.ticketId ++ ":" ++ role ++ ":" ++ agentId

inductive ReplayPhase where
  | running
  | acked
  | threw
deriving DecidableEq

/-- One `#replayOne` of this process. -/
structure Replay where
  key : String
  agentId : String
  startedAt : Nat
  phase : ReplayPhase

structure DeferStore where
  byAgent : List AgentDeferRecord
  inFlightReplay : List (String × Nat)
  bootDispatching : List String
  /-- The armed timer; 0 asks for an immediate drain. -/
  timerAtMs : Option Int
  now : Int
  file : Option (List AgentDeferRecord)
  replays : List Replay
  reaped : List Nat
  ticks : Nat
  written : Bool

/-- A repeat refreshes the intent; a trigger upgrades a mention, never the reverse. -/
def coalesce (it : SessionDeferIntent) (raw : String) (kind : SessionDeferIntentKind) :
    SessionDeferIntent :=
  match kind, it.kind with
  | .trigger, _ => { it with kind := .trigger, raw }
  | .mention, .mention => { it with raw }
  | .mention, .trigger => it

/-- The window with an intent for the key, created or refreshed. -/
def AgentDeferRecord.add (window : AgentDeferRecord) (m : InflightDispatchMeta) (raw : String)
    (kind : SessionDeferIntentKind) (acceptance : Nat × Bool) : AgentDeferRecord :=
  let update (it : SessionDeferIntent) : SessionDeferIntent :=
    if it.key = m.key then { coalesce it raw kind with accepted := it.accepted ++ [acceptance] }
    else it
  if window.intents.any (·.key = m.key) then
    { window with intents := window.intents.map update }
  else
    let it : SessionDeferIntent :=
      { key := m.key, raw, ticketId := m.ticketId, role := m.role, agentId := m.agentId, kind
        status := .pending, spawnedPid := none, accepted := [acceptance] }
    { window with intents := window.intents ++ [it] }

namespace DeferStore

def inFlight (s : DeferStore) (key : String) : Bool := s.inFlightReplay.any (·.1 = key)

/-- A replay of the key is running, or has thrown and still holds the key. -/
def outstanding (s : DeferStore) (key : String) : Bool :=
  s.inFlight key || s.replays.any fun r => r.key = key ∧ r.phase = .running

def record? (s : DeferStore) (agentId : String) : Option AgentDeferRecord :=
  s.byAgent.find? (·.agentId = agentId)

def setRecords (s : DeferStore) (byAgent : List AgentDeferRecord) : DeferStore :=
  { s with byAgent }

def modifyRecord (s : DeferStore) (agentId : String) (f : AgentDeferRecord → AgentDeferRecord) :
    DeferStore :=
  s.setRecords (s.byAgent.map fun window => if window.agentId = agentId then f window else window)

/-- `#persist`: a failed write leaves the old file. -/
def persist (s : DeferStore) (writeOk : Bool) : DeferStore :=
  { s with file := if writeOk then some s.byAgent else s.file, written := writeOk }

/-- `#arm`: an expired window with an intent that is not being replayed wants an immediate
    drain; else the nearest reset counts. -/
def arm (s : DeferStore) : DeferStore :=
  let immediate := s.byAgent.any fun window =>
    window.deferUntilMs ≤ s.now && window.intents.any fun it => !s.inFlight it.key
  let future := (s.byAgent.map (·.deferUntilMs)).filter (s.now < ·)
  { s with timerAtMs := if immediate then some 0 else future.min? }

def recordSessionLimit (s : DeferStore) (agentId : String) (deferUntilMs : Int)
    (nowMs : Option Int) (writeOk : Bool) : DeferStore :=
  if agentId = "" ∨ deferUntilMs ≤ nowMs.getD s.now then s else
  match s.record? agentId with
  | some existing =>
    -- extend to the later reset, never shorten
    if existing.deferUntilMs < deferUntilMs then
      ((s.modifyRecord agentId fun window => { window with deferUntilMs }).persist writeOk).arm
    else s
  | none =>
    let window := { agentId, deferUntilMs, intents := [] }
    ((s.setRecords (s.byAgent ++ [window])).persist writeOk).arm

def addPendingIntent (s : DeferStore) (agentId : String) (m : InflightDispatchMeta) (raw : String)
    (kind : SessionDeferIntentKind) (nowMs : Option Int) (writeOk : Bool) : DeferStore :=
  let live (window : AgentDeferRecord) : Bool :=
    agentId ≠ "" ∧ nowMs.getD s.now < window.deferUntilMs
  if (s.record? agentId).any live then
    let acceptance := (s.ticks, !s.outstanding m.key)
    let t := s.modifyRecord agentId (·.add m raw kind acceptance)
    { t with ticks := s.ticks + 1 }.persist writeOk
  else s

/-- The intents of a ticket, in all windows. -/
def keysOfTicket (s : DeferStore) (ticketId : String) : List String :=
  (s.byAgent.flatMap fun window => window.intents.filter (·.ticketId = ticketId)).map (·.key)

def forget (s : DeferStore) (keys : List String) : DeferStore :=
  { s with
    inFlightReplay := s.inFlightReplay.filter (·.1 ∉ keys)
    bootDispatching := s.bootDispatching.filter (· ∉ keys) }

def cancelByTicket (s : DeferStore) (ticketId : String) (writeOk : Bool) : DeferStore :=
  let keys := s.keysOfTicket ticketId
  if ticketId = "" ∨ keys = [] then s else
  let byAgent := s.byAgent.map fun window =>
    { window with intents := window.intents.filter (·.ticketId ≠ ticketId) }
  ((s.forget keys).setRecords byAgent).persist writeOk

def clear (s : DeferStore) (agentId : String) (writeOk : Bool) : DeferStore :=
  match (s.record? agentId).filter fun _ => agentId ≠ "" with
  | none => s
  | some window =>
    let t := s.forget (window.intents.map (·.key))
    ((t.setRecords (s.byAgent.filter (·.agentId ≠ agentId))).persist writeOk).arm

/-- What the loops of `#fire` carry. -/
structure Drain where
  inFlightReplay : List (String × Nat)
  toReplay : List SessionDeferIntent
  ticks : Nat

/-- One intent of an expired window. -/
def drainIntent (d : Drain) (it : SessionDeferIntent) : Drain × SessionDeferIntent :=
  if d.inFlightReplay.any (·.1 = it.key) then (d, it) else
  let it := { it with status := .dispatching }
  ({ inFlightReplay := d.inFlightReplay ++ [(it.key, d.ticks)]
     toReplay := d.toReplay ++ [it]
     ticks := d.ticks + 1 }, it)

def drainIntents (d : Drain) : List SessionDeferIntent → Drain × List SessionDeferIntent
  | [] => (d, [])
  | it :: rest =>
    let (d, it) := drainIntent d it
    let (d, rest) := drainIntents d rest
    (d, it :: rest)

/-- One window; one that has not ended is left alone. -/
def drainRecord (now : Int) (d : Drain) (window : AgentDeferRecord) : Drain × AgentDeferRecord :=
  if now < window.deferUntilMs then (d, window) else
  let (d, intents) := drainIntents d window.intents
  (d, { window with intents })

def drainRecords (now : Int) (d : Drain) : List AgentDeferRecord → Drain × List AgentDeferRecord
  | [] => (d, [])
  | window :: rest =>
    let (d, window) := drainRecord now d window
    let (d, rest) := drainRecords now d rest
    (d, window :: rest)

/-- The synchronous part of `#replayOne`: a harness that outlived the previous process is reaped
    before its intent is driven again, and the handler is called. -/
def startReplay (s : DeferStore) (it : SessionDeferIntent) (startedAt : Nat) : DeferStore :=
  let reap := if it.key ∈ s.bootDispatching then it.spawnedPid else none
  let clearPid (i : SessionDeferIntent) : SessionDeferIntent :=
    if i.key = it.key ∧ reap.isSome then { i with spawnedPid := none } else i
  { s with
    bootDispatching := s.bootDispatching.filter (· ≠ it.key)
    reaped := s.reaped ++ reap.toList
    byAgent := s.byAgent.map fun window => { window with intents := window.intents.map clearPid }
    replays := s.replays ++
      [{ key := it.key, agentId := it.agentId, startedAt, phase := .running }] }

/-- The replays of one `#fire`, numbered from `n`. -/
def startReplays (s : DeferStore) (n : Nat) : List SessionDeferIntent → DeferStore
  | [] => s
  | it :: rest => (s.startReplay it n).startReplays (n + 1) rest

/-- `#fire`: the transition to `dispatching` is persisted before any replay runs. -/
def fire (s : DeferStore) (writeOk : Bool) : DeferStore :=
  let (d, byAgent) := drainRecords s.now ⟨s.inFlightReplay, [], s.ticks⟩ s.byAgent
  let drained := { s with
    timerAtMs := none, byAgent, inFlightReplay := d.inFlightReplay, ticks := d.ticks }
  let persisted := if d.toReplay = [] then drained else drained.persist writeOk
  persisted.arm.startReplays s.ticks d.toReplay

/-- The intent of a replay, as long as it is being dispatched. -/
def liveFor (r : Replay) (window : AgentDeferRecord) (it : SessionDeferIntent) : Bool :=
  window.agentId = r.agentId ∧ it.key = r.key ∧ it.status = .dispatching

def recordPid (r : Replay) (pid : Option Nat) (window : AgentDeferRecord) : AgentDeferRecord :=
  { window with
    intents := window.intents.map fun it =>
      if liveFor r window it then { it with spawnedPid := pid.filter (1 < ·) } else it }

/-- `onSpawned` of replay `r`. -/
def spawned (s : DeferStore) (r : Replay) (pid : Option Nat) (writeOk : Bool) : DeferStore :=
  if s.byAgent.any (fun window => window.intents.any (liveFor r window)) then
    (s.setRecords (s.byAgent.map (recordPid r pid))).persist writeOk
  else s

/-- `#ackIntent`: the intent goes, and with it a drained window that has ended. -/
def ackIntent (s : DeferStore) (r : Replay) (writeOk : Bool) : DeferStore :=
  let t := (s.forget [r.key]).modifyRecord r.agentId fun window =>
    { window with intents := window.intents.filter (·.key ≠ r.key) }
  let done (window : AgentDeferRecord) : Bool :=
    window.agentId = r.agentId ∧ window.intents = [] ∧ window.deferUntilMs ≤ s.now
  (t.setRecords (t.byAgent.filter (!done ·))).persist writeOk

def loadIntent (it : SessionDeferIntent) : SessionDeferIntent :=
  { it with spawnedPid := it.spawnedPid.filter (1 < ·) }

/-- The process dies and another one loads the file. -/
def restart (s : DeferStore) : DeferStore :=
  let byAgent := ((s.file.getD []).filter (·.agentId ≠ "")).map fun window =>
    ({ window with intents := window.intents.map loadIntent } : AgentDeferRecord)
  let survivors := (byAgent.flatMap (·.intents)).filter fun it =>
    it.status = .dispatching ∧ it.spawnedPid.isSome
  let booted : DeferStore := { s with
    byAgent
    inFlightReplay := []
    bootDispatching := survivors.map (·.key)
    timerAtMs := none
    replays := []
    written := true }
  booted.arm

end DeferStore

inductive DeferAction where
  | tick (now : Int)
  | recordSessionLimit (agentId : String) (deferUntilMs : Int) (nowMs : Option Int)
      (writeOk : Bool)
  | addPendingIntent (agentId : String) (m : InflightDispatchMeta) (raw : String)
      (kind : SessionDeferIntentKind) (nowMs : Option Int) (writeOk : Bool)
  | cancelByTicket (ticketId : String) (writeOk : Bool)
  | clear (agentId : String) (writeOk : Bool)
  | fire (writeOk : Bool)
  | spawned (i : Nat) (pid : Option Nat) (writeOk : Bool)
  | resolve (i : Nat) (writeOk : Bool)
  | throw (i : Nat)
  | restart

/-- The timer fires only while it is armed; a replay resolves or throws once. -/
def DeferStore.act (s : DeferStore) : DeferAction → Except String DeferStore
  | .tick now => .ok { s with now }
  | .recordSessionLimit agentId deferUntilMs nowMs writeOk =>
    .ok (s.recordSessionLimit agentId deferUntilMs nowMs writeOk)
  | .addPendingIntent agentId m raw kind nowMs writeOk =>
    .ok (s.addPendingIntent agentId m raw kind nowMs writeOk)
  | .cancelByTicket ticketId writeOk => .ok (s.cancelByTicket ticketId writeOk)
  | .clear agentId writeOk => .ok (s.clear agentId writeOk)
  | .fire writeOk => if s.timerAtMs.isSome then .ok (s.fire writeOk) else .error "no timer"
  | .spawned i pid writeOk =>
    match s.replays[i]? with
    | some r => .ok (s.spawned r pid writeOk)
    | none => .error "no replay"
  | .resolve i writeOk =>
    match s.replays[i]? with
    | some r =>
      if r.phase = .running then
        .ok ({ s with replays := s.replays.set i { r with phase := .acked } }.ackIntent r writeOk)
      else .error "not running"
    | none => .error "no replay"
  | .throw i =>
    match s.replays[i]? with
    | some r =>
      if r.phase = .running then
        .ok { s with replays := s.replays.set i { r with phase := .threw } }
      else .error "not running"
    | none => .error "no replay"
  | .restart => .ok s.restart

/-- A fresh installation: no window, no file. -/
def deferSystem : Transition DeferStore DeferAction where
  init s := s.byAgent = [] ∧ s.inFlightReplay = [] ∧ s.bootDispatching = [] ∧
    s.timerAtMs = none ∧ s.file = none ∧ s.replays = [] ∧ s.written = true
  step s a t := s.act a = .ok t

end WorkflowBoard.AgentManager
