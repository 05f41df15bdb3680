import WorkflowBoard.ForStd.Transition

/-!
# Ordered delivery of session output (`agent-manager/src/lib/agent-session-delivery.ts`)

`enqueue` puts events, and possibly a state patch, behind what is waiting; one drain at a time
takes the batches from the front and awaits the sending of each. The promise of a drain is its
number. A step is a call of `enqueue`, the turn of a drain at the head of its loop, or the
settling of the send it awaits; `send` returns a promise, which is fulfilled or rejected.

The model is generic in the events and patches; `byteLength` is the length of the JSON text of a
list of events. `sent` and `calls` record the run, and no step depends on them.
-/

namespace WorkflowBoard.AgentManager

/-- `MAX_BATCH_EVENTS`. -/
def maxBatchEvents : Nat := 128

/-- `MAX_BATCH_BYTES`. -/
def maxBatchBytes : Nat := 512 * 1024

structure DeliveryBatch (ε σ : Type) where
  events : List ε
  state : Option σ
  bytes : Nat

/-- Where a drain stands. -/
inductive DrainPhase (ε σ : Type) where
  /-- at the head of its loop -/
  | ready
  | sending (batch : DeliveryBatch ε σ)
  /-- its promise is settled -/
  | done

/-- The batch a drain awaits the sending of. -/
def DrainPhase.batch? {ε σ : Type} : DrainPhase ε σ → Option (DeliveryBatch ε σ)
  | .sending batch => some batch
  | .ready | .done => none

/-- A call of `enqueue`, and the promise it returned; the promise a new queue starts with is
    resolved already. -/
structure EnqueueCall (ε σ : Type) where
  events : List ε
  state : Option σ
  promise : Option Nat

structure AgentSessionDelivery (ε σ : Type) where
  pending : List (DeliveryBatch ε σ)
  draining : Bool
  completion : Option Nat
  drains : List (DrainPhase ε σ)
  /-- The batches whose send has settled. -/
  sent : List (DeliveryBatch ε σ)
  calls : List (EnqueueCall ε σ)

namespace AgentSessionDelivery

variable {ε σ : Type}

/-- The batches whose send has not settled yet. -/
def inFlight (s : AgentSessionDelivery ε σ) : List (DeliveryBatch ε σ) :=
  s.drains.filterMap (·.batch?)

/-- The batches behind the queue with one call more. -/
def push (pending : List (DeliveryBatch ε σ)) (events : List ε) (state : Option σ) (bytes : Nat) :
    List (DeliveryBatch ε σ) :=
  match pending.getLast? with
  | none => [{ events, state, bytes }]
  | some tail =>
    if tail.state.isNone ∧ state.isNone ∧ tail.events.length + events.length ≤ maxBatchEvents ∧
        tail.bytes + bytes ≤ maxBatchBytes then
      pending.dropLast ++
        [{ tail with events := tail.events ++ events, bytes := tail.bytes + bytes }]
    else pending ++ [{ events, state, bytes }]

def enqueue (byteLength : List ε → Nat) (s : AgentSessionDelivery ε σ) (events : List ε)
    (state : Option σ) : AgentSessionDelivery ε σ :=
  if events.isEmpty ∧ state.isNone then
    { s with calls := s.calls ++ [{ events, state, promise := s.completion }] }
  else
    let s := { s with pending := push s.pending events state (byteLength events) }
    let s :=
      if s.draining then s
      else
        { s with
          draining := true
          completion := some s.drains.length
          drains := s.drains ++ [.ready] }
    { s with calls := s.calls ++ [{ events, state, promise := s.completion }] }

/-- A turn of the loop: the next batch is sent, or the drain ends. -/
def turn (s : AgentSessionDelivery ε σ) (k : Nat) : AgentSessionDelivery ε σ :=
  match s.pending with
  | batch :: pending => { s with pending, drains := s.drains.set k (.sending batch) }
  | [] => { s with draining := false, drains := s.drains.set k .done }

/-- The send has settled; a rejection is swallowed. -/
def settle (s : AgentSessionDelivery ε σ) (k : Nat) (batch : DeliveryBatch ε σ) :
    AgentSessionDelivery ε σ :=
  { s with drains := s.drains.set k .ready, sent := s.sent ++ [batch] }

end AgentSessionDelivery

inductive DeliveryAction (ε σ : Type) where
  | enqueue (events : List ε) (state : Option σ)
  | turn (drain : Nat)
  | settle (drain : Nat) (rejected : Bool)

def AgentSessionDelivery.act {ε σ : Type} (byteLength : List ε → Nat)
    (s : AgentSessionDelivery ε σ) :
    DeliveryAction ε σ → Except String (AgentSessionDelivery ε σ)
  | .enqueue events state => .ok (s.enqueue byteLength events state)
  | .turn k =>
    match s.drains[k]? with
    | some .ready => .ok (s.turn k)
    | _ => .error "not at its loop"
  | .settle k _ =>
    match s.drains[k]? with
    | some (.sending batch) => .ok (s.settle k batch)
    | _ => .error "nothing in flight"

def AgentSessionDelivery.new {ε σ : Type} : AgentSessionDelivery ε σ where
  pending := []
  draining := false
  completion := none
  drains := []
  sent := []
  calls := []

def deliverySystem {ε σ : Type} (byteLength : List ε → Nat) :
    Transition (AgentSessionDelivery ε σ) (DeliveryAction ε σ) where
  init s := s = .new
  step s a t := s.act byteLength a = .ok t

end WorkflowBoard.AgentManager
