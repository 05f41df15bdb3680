import WorkflowBoard.ForStd.InsertMap
import WorkflowBoard.ForStd.Transition

/-!
# The folder lock (`agent-manager/src/lib/run-execution-lock.ts`)

`acquire` chains a hold behind the tail of its key and resolves once that tail is settled; the
tail of a hold is settled when its predecessor's is and the hold is released. The continuations
of the promises are steps of their own, in any order.

Calls of `acquire` are numbered, and a tail is named by the number of its call. Without a
predecessor `acquire` does not wait: the hold is granted at once.
-/

namespace WorkflowBoard.AgentManager

/-- A call of `acquire`: `prev` is the tail it found, `released` says that `mine` is resolved and
    `settled` that `composed` is. -/
structure RunLock where
  key : String
  prev : Option Nat
  granted : Bool
  released : Bool := false
  settled : Bool := false
deriving DecidableEq

def RunLock.wasBusy (h : RunLock) : Bool := h.prev.isSome

structure FolderMutex where
  chain : InsertMap String Nat
  locks : List RunLock

namespace FolderMutex

def activeKeyCount (m : FolderMutex) : Nat := m.chain.size

def acquire (m : FolderMutex) (key : String) : FolderMutex :=
  let prev := m.chain.get key
  { chain := m.chain.set key m.locks.length
    locks := m.locks ++ [{ key, prev, granted := prev.isNone }] }

/-- The handle of call `i`. -/
def release (m : FolderMutex) (i : Nat) (h : RunLock) : FolderMutex :=
  if h.released then m
  else
    { chain := if m.chain.get h.key = some i then m.chain.delete h.key else m.chain
      locks := m.locks.set i { h with released := true } }

/-- Whether the tail that the call found is settled. -/
def prevSettled (m : FolderMutex) (h : RunLock) : Bool :=
  match h.prev with
  | none => true
  | some p => (m.locks[p]?).any (·.settled)

end FolderMutex

inductive LockStep where
  | acquire (key : String)
  | release (i : Nat)
  /-- `composed` of call `i` is resolved. -/
  | settle (i : Nat)
  /-- `acquire` resolves for call `i`. -/
  | grant (i : Nat)

def FolderMutex.act (m : FolderMutex) : LockStep → Except String FolderMutex
  | .acquire key => .ok (m.acquire key)
  | .release i =>
    match m.locks[i]? with
    | none => .error "no such handle"
    | some h => if h.granted then .ok (m.release i h) else .error "the handle is not returned yet"
  | .settle i =>
    match m.locks[i]? with
    | none => .error "no such call"
    | some h =>
      if m.prevSettled h ∧ h.released ∧ ¬h.settled then
        .ok { m with locks := m.locks.set i { h with settled := true } }
      else .error "not resolved yet"
  | .grant i =>
    match m.locks[i]? with
    | none => .error "no such call"
    | some h =>
      if m.prevSettled h ∧ ¬h.granted then
        .ok { m with locks := m.locks.set i { h with granted := true } }
      else .error "still waiting"

def mutexSystem : Transition FolderMutex LockStep where
  init m := m.chain.entries = [] ∧ m.locks = []
  step m a m' := m.act a = .ok m'

end WorkflowBoard.AgentManager
