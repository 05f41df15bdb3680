import WorkflowBoard.ForStd.InsertMap
import WorkflowBoard.ForStd.Transition
import WorkflowBoard.Native.JsDate
import WorkflowBoard.Native.JsString

/-!
# The circuit breaker (`agent-manager/src/lib/circuit-breaker.ts`)

Counts silent exits for each (agent, ticket, role) key and blocks dispatch once a key has failed
too often. All methods are synchronous; a call reads the clock once. Log lines are left out.
-/

namespace WorkflowBoard.AgentManager

/-- A missing `staleMs` is the cooldown. -/
structure BreakerOptions where
  threshold : Nat := 5
  cooldownMs : Int := 60 * 60000
  maxKeys : Nat := 2000
  staleMs : Int := cooldownMs

structure CircuitBreakerEntry where
  consecutiveFailures : Nat := 0
  lastFailureAt : Date := 0
  lastExitCode : Option Int := none
  lastExitTail : String := ""
  isOpen : Bool := false
  openedAt : Date := 0
  lastProbeAt : Date := 0
deriving DecidableEq

/-- `#state`. -/
abbrev CircuitBreaker := InsertMap String CircuitBreakerEntry

namespace CircuitBreaker

def key (agentId ticketId role : String) : String :=
  agentId ++ ":" ++ ticketId ++ ":" ++ if role = "" then "_" else role

/-! ## Methods -/

def isStale (o : BreakerOptions) (now : Date) (entry : CircuitBreakerEntry) : Bool :=
  o.staleMs < (now - entry.lastFailureAt : Int)

/-- `#sweepStale`, with the number of removed keys. -/
def sweepStale (o : BreakerOptions) (b : CircuitBreaker) (now : Date) : Nat × CircuitBreaker :=
  ((b.entries.filter fun e => isStale o now e.2).length, b.deleteWhere fun _ e => isStale o now e)

def sweep (o : BreakerOptions) (b : CircuitBreaker) (now : Date) : Nat × CircuitBreaker :=
  b.sweepStale o now

/-- The key whose last failure is the oldest, the first of equals. -/
def oldest (entries : List (String × CircuitBreakerEntry)) : Option String :=
  (entries.foldl (fun best p =>
    match best with
    | none => some p
    | some b => if p.2.lastFailureAt < b.2.lastFailureAt then some p else some b) none).map (·.1)

/-- `#enforceCap`. -/
def enforceCap (o : BreakerOptions) (b : CircuitBreaker) : CircuitBreaker :=
  if b.size < o.maxKeys then b
  else
    match (oldest (b.entries.filter (!·.2.isOpen))).or (oldest b.entries) with
    | none => b
    | some victim => b.delete victim

/-- What `record` notes in the entry, and whether it has just opened. -/
def noteFailure (o : BreakerOptions) (entry : CircuitBreakerEntry) (now : Date)
    (exitCode : Option Int) (tailSnippet : Option String) (forceOpen : Bool) :
    Bool × CircuitBreakerEntry :=
  let wasOpen := entry.isOpen
  let entry := { entry with
    consecutiveFailures := entry.consecutiveFailures + 1
    lastFailureAt := now
    lastExitCode := exitCode
    lastExitTail := sliceText 200 (tailSnippet.getD "") }
  if o.threshold ≤ entry.consecutiveFailures ∨ forceOpen then
    (!wasOpen, { entry with isOpen := true, openedAt := now })
  else (false, entry)

/-- The map in which `record` finds or makes the entry of the key. -/
def withEntry (o : BreakerOptions) (b : CircuitBreaker) (now : Date) (key : String) :
    CircuitBreaker :=
  match b.get key with
  | some _ => b
  | none => ((b.sweepStale o now).2.enforceCap o).set key {}

def record (o : BreakerOptions) (b : CircuitBreaker) (now : Date) (key : String)
    (exitCode : Option Int) (tailSnippet : Option String) (forceOpen : Bool) :
    (Bool × CircuitBreakerEntry) × CircuitBreaker :=
  let b := b.withEntry o now key
  let noted := noteFailure o ((b.get key).getD {}) now exitCode tailSnippet forceOpen
  (noted, b.set key noted.2)

/-- `Math.round(ms / 1000)`. -/
def seconds (ms : Int) : Int := (ms + 500) / 1000

def blockReason (o : BreakerOptions) (entry : CircuitBreakerEntry) (now elapsed : Int) : String :=
  "circuit_breaker_open (" ++ toString entry.consecutiveFailures ++
    " consecutive non-transient exits, last exit=" ++
    (entry.lastExitCode.map toString).getD "null" ++ ", opened " ++
    toString (seconds (now - entry.openedAt)) ++ "s ago, next probe in " ++
    toString (seconds (o.cooldownMs - elapsed)) ++ "s)"

/-- The reason why dispatch is blocked, `none` if it is allowed. A granted probe is stamped. -/
def shouldBlock (o : BreakerOptions) (b : CircuitBreaker) (now : Date) (key : String) :
    Option String × CircuitBreaker :=
  match b.get key with
  | none => (none, b)
  | some entry =>
    if entry.isOpen then
      let anchor : Int := max entry.openedAt entry.lastProbeAt
      let elapsed : Int := now - anchor
      if o.cooldownMs ≤ elapsed then (none, b.set key { entry with lastProbeAt := now })
      else (some (blockReason o entry now elapsed), b)
    else (none, b)

def reset (b : CircuitBreaker) (key : String) : CircuitBreaker := b.delete key

def recordSuccess (b : CircuitBreaker) (key : String) : CircuitBreaker :=
  match b.get key with
  | none => b.reset key
  | some entry => if entry.isOpen then b else b.reset key

/-- Whether `resetAgent` clears the key. -/
def isKeyOf (agentId key : String) : Bool := (agentId ++ ":").toList.isPrefixOf key.toList

def resetAgent (b : CircuitBreaker) (agentId : String) : CircuitBreaker :=
  b.deleteWhere fun key _ => isKeyOf agentId key

end CircuitBreaker

/-! ## Runs -/

/-- A call of a method, with the answer of `shouldBlock`. -/
inductive BreakerMethod where
  | record (key : String) (exitCode : Option Int) (tailSnippet : Option String) (forceOpen : Bool)
  | shouldBlock (key : String) (answer : Option String)
  | recordSuccess (key : String)
  | reset (key : String)
  | resetAgent (agentId : String)
  | sweep (now : Date)

structure BreakerCall where
  now : Date
  method : BreakerMethod

structure BreakerState where
  breaker : CircuitBreaker
  now : Date
deriving DecidableEq

/-- The map after a call. -/
def CircuitBreaker.act (o : BreakerOptions) (b : CircuitBreaker) (now : Date) :
    BreakerMethod → Except String CircuitBreaker
  | .record key exitCode tail force => .ok (b.record o now key exitCode tail force).2
  | .shouldBlock key answer =>
    if (b.shouldBlock o now key).1 = answer then .ok (b.shouldBlock o now key).2
    else .error "another answer"
  | .recordSuccess key => .ok (b.recordSuccess key)
  | .reset key => .ok (b.reset key)
  | .resetAgent agentId => .ok (b.resetAgent agentId)
  | .sweep now => .ok (b.sweep o now).2

/-- The clock does not go back, and there are fewer than `maxKeys` keys. -/
def BreakerState.act (o : BreakerOptions) (s : BreakerState) (c : BreakerCall) :
    Except String BreakerState :=
  if c.now < s.now then .error "the clock went back"
  else if o.maxKeys ≤ s.breaker.size then .error "too many keys"
  else
    match s.breaker.act o c.now c.method with
    | .ok breaker => .ok { breaker, now := c.now }
    | .error e => .error e

def breakerSystem (o : BreakerOptions) : Transition BreakerState BreakerCall where
  init s := s.breaker.entries = []
  step s c t := s.act o c = .ok t

end WorkflowBoard.AgentManager
