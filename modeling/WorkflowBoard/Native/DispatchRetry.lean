import WorkflowBoard.Native.SessionDefer

/-!
# The retry queue (`agent-manager/src/lib/dispatch-preflight.ts`, `PendingDispatchRetry`)

Dispatches that found the pool exhausted are queued, one entry for each (ticket, role, agent),
and replayed with a growing delay. An attempt is suspended while it awaits `verify`, `onRetry`
or `onGiveUp`; every other method is synchronous. A step is a call of a method, the firing of a
timer or the settling of an awaited callback.

Entries are objects: they are numbered as they are created, and the map holds their numbers, so
that an attempt goes on with its own entry whatever the map holds by then. The callbacks return
their promise before they touch the queue. The list of events records the run and no step depends
on it; log texts are left out.
-/

namespace WorkflowBoard.AgentManager

structure PendingRetryEntry where
  key : String
  raw : String
  ticketId : String
  role : String
  agentId : String
  attempts : Nat
  delayMs : Nat
  timer : Option Nat
  attempting : Bool

/-- `verify` says whether the option of that name is given. -/
structure RetryOptions where
  verify : Bool := true
  baseDelayMs : Nat := 30000
  maxDelayMs : Nat := 5 * 60000
  maxAttempts : Nat := 8

/-- Where one `#attempt` stands. -/
inductive AttemptPhase where
  | verifying
  | retrying
  | givingUp
  | returned
deriving DecidableEq

structure RetryAttempt where
  entry : Nat
  phase : AttemptPhase

structure RetryTimer where
  handle : Nat
  entry : Nat
  ms : Nat
deriving DecidableEq

/-- What `verify` answers; a throw counts as eligible. -/
inductive Verdict where
  | eligible
  | ineligible
  | threw
deriving DecidableEq

inductive RetryEvent where
  /-- An entry is created for the key. -/
  | registered (key : String)
  /-- `onRetry` is called. -/
  | attempted (key : String)
  /-- `onGiveUp` is called with `entry`, after `removed` was taken out of the map. -/
  | gaveUp (key : String) (entry : Nat) (removed : Option Nat)
deriving DecidableEq

structure PendingDispatchRetry where
  heap : List PendingRetryEntry
  /-- The map, in the order of insertion. -/
  entries : List Nat
  /-- The armed timers of the scheduler, and the next handle. -/
  timers : List RetryTimer
  nextHandle : Nat
  attempts : List RetryAttempt
  events : List RetryEvent

namespace PendingDispatchRetry

def keyOf (s : PendingDispatchRetry) (e : Nat) : Option String := (s.heap[e]?).map (·.key)

/-- `#entries.get(key)`. -/
def get (s : PendingDispatchRetry) (key : String) : Option Nat :=
  s.entries.find? fun e => s.keyOf e = some key

/-- `#entries.delete(key)`. -/
def delete (s : PendingDispatchRetry) (key : String) : PendingDispatchRetry :=
  { s with entries := s.entries.filter fun e => s.keyOf e ≠ some key }

def modify (s : PendingDispatchRetry) (e : Nat) (f : PendingRetryEntry → PendingRetryEntry) :
    PendingDispatchRetry :=
  { s with heap := s.heap.modify e f }

/-- `#scheduler.clear`, if there is a handle. -/
def clear (s : PendingDispatchRetry) (handle : Option Nat) : PendingDispatchRetry :=
  { s with timers := s.timers.filter fun t => some t.handle ≠ handle }

/-- `#arm`. -/
def arm (s : PendingDispatchRetry) (e : Nat) : PendingDispatchRetry :=
  match s.heap[e]? with
  | none => s
  | some entry =>
    let s := s.clear entry.timer
    let s := s.modify e fun entry => { entry with timer := some s.nextHandle }
    { s with
      timers := s.timers ++ [{ handle := s.nextHandle, entry := e, ms := entry.delayMs }]
      nextHandle := s.nextHandle + 1 }

def register (o : RetryOptions) (s : PendingDispatchRetry) (m : InflightDispatchMeta)
    (raw : String) : PendingDispatchRetry :=
  match s.get m.key with
  | some e => s.modify e fun entry => { entry with raw }
  | none =>
    let entry : PendingRetryEntry :=
      { key := m.key, raw, ticketId := m.ticketId, role := m.role, agentId := m.agentId
        attempts := 0, delayMs := o.baseDelayMs, timer := none, attempting := false }
    let s := { s with
      heap := s.heap ++ [entry]
      entries := s.entries ++ [s.heap.length]
      events := s.events ++ [RetryEvent.registered m.key] }
    s.arm (s.heap.length - 1)

/-- `#drop`. -/
def drop (s : PendingDispatchRetry) (key : String) : PendingDispatchRetry :=
  match s.get key with
  | none => s
  | some e => (s.clear ((s.heap[e]?).bind (·.timer))).delete key

def resolve (s : PendingDispatchRetry) (m : InflightDispatchMeta) : PendingDispatchRetry :=
  s.drop m.key

def cancel (s : PendingDispatchRetry) (key : String) : PendingDispatchRetry := s.drop key

/-- One turn of the loop of `cancelByTicket`. -/
def cancelEntry (ticketId : String) (s : PendingDispatchRetry) (e : Nat) : PendingDispatchRetry :=
  match s.heap[e]? with
  | none => s
  | some entry => if entry.ticketId = ticketId then s.cancel entry.key else s

def cancelByTicket (s : PendingDispatchRetry) (ticketId : String) : PendingDispatchRetry :=
  s.entries.foldl (cancelEntry ticketId) s

/-! ## An attempt -/

/-- `#attempt`, its call of `onRetry`. -/
def replay (s : PendingDispatchRetry) (i e : Nat) (key : String) : PendingDispatchRetry :=
  let s := s.modify e fun entry => { entry with attempts := entry.attempts + 1 }
  { s with
    attempts := s.attempts.set i { entry := e, phase := .retrying }
    events := s.events ++ [RetryEvent.attempted key] }

/-- `#attempt`, its `finally`. -/
def finish (s : PendingDispatchRetry) (i e : Nat) : PendingDispatchRetry :=
  let s := s.modify e fun entry => { entry with attempting := false }
  { s with attempts := s.attempts.set i { entry := e, phase := .returned } }

/-- `#attempt` up to its first await. -/
def attempt (o : RetryOptions) (s : PendingDispatchRetry) (e : Nat) : PendingDispatchRetry :=
  match s.heap[e]? with
  | none => s
  | some entry =>
    if s.get entry.key = none ∨ entry.attempting = true then s
    else
      let s := s.modify e fun entry => { entry with attempting := true, timer := none }
      let i := s.attempts.length
      let s := { s with attempts := s.attempts ++ [{ entry := e, phase := .verifying }] }
      if o.verify then s else s.replay i e entry.key

/-- `#attempt` after `verify`. -/
def verified (s : PendingDispatchRetry) (i e : Nat) (verdict : Verdict) : PendingDispatchRetry :=
  match s.heap[e]? with
  | none => s
  | some entry =>
    if s.get entry.key = none then s.finish i e
    else if verdict = .ineligible then (s.cancel entry.key).finish i e
    else s.replay i e entry.key

/-- `#attempt` after `onRetry`, whether it resolved or threw. -/
def retried (o : RetryOptions) (s : PendingDispatchRetry) (i e : Nat) : PendingDispatchRetry :=
  match s.heap[e]? with
  | none => s
  | some entry =>
    if s.get entry.key = none then s.finish i e
    else if o.maxAttempts ≤ entry.attempts then
      { s.delete entry.key with
        attempts := s.attempts.set i { entry := e, phase := .givingUp }
        events := s.events ++ [RetryEvent.gaveUp entry.key e (s.get entry.key)] }
    else
      let s := s.modify e fun entry =>
        { entry with delayMs := min (entry.delayMs * 2) o.maxDelayMs }
      (s.arm e).finish i e

/-- One turn of the loop of `wake`. -/
def wakeEntry (o : RetryOptions) (s : PendingDispatchRetry) (e : Nat) : PendingDispatchRetry :=
  match s.heap[e]? with
  | none => s
  | some entry =>
    if entry.attempting then s
    else ((s.clear entry.timer).modify e fun entry => { entry with timer := none }).attempt o e

def wake (o : RetryOptions) (s : PendingDispatchRetry) : PendingDispatchRetry :=
  s.entries.foldl (wakeEntry o) s

/-- The scheduler calls back. -/
def fire (o : RetryOptions) (s : PendingDispatchRetry) (t : RetryTimer) : PendingDispatchRetry :=
  (s.clear (some t.handle)).attempt o t.entry

end PendingDispatchRetry

inductive RetryAction where
  | register (m : InflightDispatchMeta) (raw : String)
  | resolve (m : InflightDispatchMeta)
  | cancel (key : String)
  | cancelByTicket (ticketId : String)
  | wake
  | fire (t : RetryTimer)
  | verified (i : Nat) (verdict : Verdict)
  | retried (i : Nat)
  | gaveUp (i : Nat)

/-- A timer fires while it is armed; a callback settles while the attempt awaits it. -/
def PendingDispatchRetry.act (o : RetryOptions) (s : PendingDispatchRetry) :
    RetryAction → Except String PendingDispatchRetry
  | .register m raw => .ok (s.register o m raw)
  | .resolve m => .ok (s.resolve m)
  | .cancel key => .ok (s.cancel key)
  | .cancelByTicket ticketId => .ok (s.cancelByTicket ticketId)
  | .wake => .ok (s.wake o)
  | .fire t => if t ∈ s.timers then .ok (s.fire o t) else .error "not armed"
  | .verified i verdict =>
    match s.attempts[i]? with
    | some ⟨e, .verifying⟩ => .ok (s.verified i e verdict)
    | _ => .error "not verifying"
  | .retried i =>
    match s.attempts[i]? with
    | some ⟨e, .retrying⟩ => .ok (s.retried o i e)
    | _ => .error "not retrying"
  | .gaveUp i =>
    match s.attempts[i]? with
    | some ⟨e, .givingUp⟩ => .ok (s.finish i e)
    | _ => .error "not giving up"

/-- A new queue. -/
def retrySystem (o : RetryOptions) : Transition PendingDispatchRetry RetryAction where
  init s := s = { heap := [], entries := [], timers := [], nextHandle := 0, attempts := [],
                  events := [] }
  step s a t := s.act o a = .ok t

end WorkflowBoard.AgentManager
