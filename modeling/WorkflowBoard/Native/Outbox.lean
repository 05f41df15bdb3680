import WorkflowBoard.ForStd.Transition
import WorkflowBoard.Native.JsDate

/-!
# The send outbox (`agent-manager/src/lib/outbox.ts`, `MessageOutbox`)

A queue of messages whose live send failed, persisted to a file. A flush takes the entries in
order; it is suspended only while it awaits a sender, so a step is a call of `enqueue`, a
call of `flush`, a turn of its loop or the return of a send, and calls interleave with a flush
at any of these points.

The outcome of a send and of a file write come from outside and are part of the step. The ids
are drawn in order, so that an id tells when its entry was enqueued. Three fields record the
run and no step depends on them: the next id, the ids handed to a sender since the process
started, and whether the last write of the file succeeded.
-/

namespace WorkflowBoard.AgentManager

variable {P : Type}

inductive OutboxKind where
  | chat_message
  | silent_exit_comment
  | dispatch_ack
  | command_ack
  | cli_login_progress
deriving DecidableEq

/-- The verdict of a replay. A sender that throws counts as retryable. -/
inductive OutboxSendOutcome where
  | ok
  | retryable
  | permanent
  | threw
deriving DecidableEq

structure OutboxEntry (P : Type) where
  id : Nat
  kind : OutboxKind
  enqueued_at_ms : Date
  attempts : Nat
  payload : P
deriving DecidableEq

def outboxMaxAgeMs : OutboxKind → Int
  | .chat_message => 24 * 60 * 60000
  | .silent_exit_comment => 24 * 60 * 60000
  | .dispatch_ack => 15 * 60000
  | .command_ack => 60 * 60000
  | .cli_login_progress => 20 * 60000

def outboxMaxEntries : Nat := 500

def outboxMaxAttempts : Nat := 50

/-- Where one call of `flush` that found no other running stands. -/
inductive FlushPhase (P : Type) where
  | looping
  | sending (entry : OutboxEntry P)
  | returned
deriving DecidableEq

structure Outbox (P : Type) where
  entries : List (OutboxEntry P)
  senders : List OutboxKind
  flushing : Bool
  flushAgain : Option String
  flushes : List (FlushPhase P)
  /-- What the file holds, if there is one. -/
  file : Option (List (OutboxEntry P))
  now : Date
  nextId : Nat
  handed : List Nat
  written : Bool

namespace Outbox

/-- `#persist`: a failed write leaves the old file. -/
def persist (s : Outbox P) (writeOk : Bool) : Outbox P :=
  { s with file := if writeOk then some s.entries else s.file, written := writeOk }

/-- An entry of the file as `load` takes it over. -/
def loadEntry (now : Date) (e : OutboxEntry P) : OutboxEntry P :=
  { e with enqueued_at_ms := if e.enqueued_at_ms = 0 then now else e.enqueued_at_ms }

/-- Drop the oldest entries beyond the cap. -/
def cap (entries : List (OutboxEntry P)) : List (OutboxEntry P) :=
  entries.drop (entries.length - outboxMaxEntries)

def enqueue (s : Outbox P) (kind : OutboxKind) (payload : P) (writeOk : Bool) : Outbox P :=
  let entry : OutboxEntry P :=
    { id := s.nextId, kind, enqueued_at_ms := s.now, attempts := 0, payload }
  { s with entries := cap (s.entries ++ [entry]), nextId := s.nextId + 1 }.persist writeOk

/-- `flush` up to its loop. -/
def flush (s : Outbox P) (reason : String) : Outbox P :=
  if s.flushing then { s with flushAgain := some reason }
  else if s.entries = [] then s
  else { s with flushing := true, flushes := s.flushes ++ [.looping] }

/-- The `finally` of flush `i`. -/
def finish (s : Outbox P) (i : Nat) : Outbox P :=
  let s := { s with flushing := false, flushes := s.flushes.set i .returned }
  match s.flushAgain with
  | none => s
  | some again => if again = "" then s else { s with flushAgain := none }.flush again

/-- The entry is past its age or has used up its attempts. -/
def expired (now : Date) (e : OutboxEntry P) : Bool :=
  outboxMaxAgeMs e.kind < (now - e.enqueued_at_ms : Int) || outboxMaxAttempts ≤ e.attempts

/-- One turn of the loop of flush `i`. -/
def turn (s : Outbox P) (i : Nat) (writeOk : Bool) : Outbox P :=
  match s.entries with
  | [] => s.finish i
  | entry :: rest =>
    if expired s.now entry then { s with entries := rest }.persist writeOk
    else if entry.kind ∈ s.senders then
      { s with flushes := s.flushes.set i (.sending entry), handed := s.handed ++ [entry.id] }
    else { s with entries := rest }.persist writeOk

/-- `entry.attempts++`, of the entry if it is still in the queue. -/
def countAttempt (id : Nat) (entries : List (OutboxEntry P)) : List (OutboxEntry P) :=
  entries.map fun e => if e.id = id then { e with attempts := e.attempts + 1 } else e

/-- The send of flush `i` has returned: whatever is first in the queue by now is removed. -/
def settle (s : Outbox P) (i : Nat) (entry : OutboxEntry P) (outcome : OutboxSendOutcome)
    (writeOk : Bool) : Outbox P :=
  match outcome with
  | .retryable | .threw =>
    ({ s with entries := countAttempt entry.id s.entries }.persist writeOk).finish i
  | .ok | .permanent =>
    { s with entries := s.entries.tail, flushes := s.flushes.set i .looping }.persist writeOk

/-- The process dies and another one loads the file. -/
def restart (s : Outbox P) : Outbox P :=
  { s with
    entries := (s.file.getD []).map (loadEntry s.now)
    flushing := false
    flushAgain := none
    flushes := []
    handed := []
    written := true }

end Outbox

inductive OutboxAction (P : Type) where
  | tick (now : Date)
  | setSenders (kinds : List OutboxKind)
  | enqueue (kind : OutboxKind) (payload : P) (writeOk : Bool)
  | flush (reason : String)
  | turn (i : Nat) (writeOk : Bool)
  | settle (i : Nat) (outcome : OutboxSendOutcome) (writeOk : Bool)
  | restart

/-- The clock shows epoch milliseconds, so it is positive; a flush takes its turns while it
    loops and settles the send it awaits. -/
def Outbox.act (s : Outbox P) : OutboxAction P → Except String (Outbox P)
  | .tick now => if 0 < now then .ok { s with now } else .error "clock"
  | .setSenders kinds => .ok { s with senders := s.senders ++ kinds }
  | .enqueue kind payload writeOk => .ok (s.enqueue kind payload writeOk)
  | .flush reason => .ok (s.flush reason)
  | .turn i writeOk =>
    match s.flushes[i]? with
    | some .looping => .ok (s.turn i writeOk)
    | _ => .error "not looping"
  | .settle i outcome writeOk =>
    match s.flushes[i]? with
    | some (.sending entry) => .ok (s.settle i entry outcome writeOk)
    | _ => .error "no send in flight"
  | .restart => .ok s.restart

/-- A process that has loaded a file as an earlier one wrote it: the entries in the order of
    their ids, and not more than the cap. -/
def outboxSystem (P : Type) : Transition (Outbox P) (OutboxAction P) where
  init s := 0 < s.now ∧ s.entries = s.file.getD [] ∧ (s.entries.map (·.id)).Pairwise (· < ·) ∧
    (∀ e ∈ s.entries, e.id < s.nextId ∧ 0 < e.enqueued_at_ms) ∧
    s.entries.length ≤ outboxMaxEntries ∧ s.flushing = false ∧ s.flushAgain = none ∧
    s.flushes = [] ∧ s.handed = [] ∧ s.written = true
  step s a t := s.act a = .ok t

end WorkflowBoard.AgentManager
