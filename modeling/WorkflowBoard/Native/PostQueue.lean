import WorkflowBoard.ForStd.Transition
import WorkflowBoard.Native.EmailGates

/-!
# Posts that are mailed (`marketing-post.service.ts`, `marketing-email.service.ts`)

The approval of an email post, the rows that `enqueue` inserts for its recipients in chunks, and the
passes of `processQueue` that send them and then mark the post as published, one statement of each
at a time. What a pass checks of a row besides its post, and how long a row has been underway, come
with the step; the message, audit and the counts that are kept with a post are left out. No
server dies between the chunks of a post.
-/

namespace WorkflowBoard.PostQueue

open Email (PostStatus SendStatus)

/-! ## Rows -/

/-- Why a row is suppressed. -/
inductive SuppressReason where
  | contact
  | consent
  /-- Its post is not being sent: the status, or none if it is gone. -/
  | post (status : Option PostStatus)
  | campaign
  | brand
deriving DecidableEq

structure Recipient where
  /-- Place of the post. -/
  post_id : Nat
  contact_id : Nat
  status : SendStatus := .queued
  suppressed : Option SuppressReason := none

/-- `queued`, `deferred` or `sending`. -/
def Recipient.isOpen (r : Recipient) : Bool := r.status.isWaiting || r.status = .sending

/-! ## Calls -/

inductive EnqueuePhase where
  /-- The recipients are not read yet. -/
  | eligible
  | inserting (rest : List Nat)
  | auditing
  | marking
  /-- A statement has thrown; these recipients are not inserted. -/
  | failing (rest : List Nat)
  | ended
deriving DecidableEq

/-- `enqueue` for a post, as the approval of the post calls it. -/
structure EnqueueCall where
  post : Nat
  recipients : Nat := 0
  phase : EnqueuePhase := .eligible

/-- What a row is finished with. -/
structure Outcome where
  status : SendStatus
  suppressed : Option SuppressReason := none
deriving DecidableEq

inductive PassPhase where
  | closing (stuck : List Nat)
  | listing
  | claiming (due : List Nat)
  /-- The row is claimed; its post is read next. -/
  | gating (place : Nat) (due : List Nat)
  | checked (place : Nat) (due : List Nat)
  | writing (place : Nat) (outcome : Outcome) (due : List Nat)
  | counting (touched : List Nat)
  /-- No open row was counted. -/
  | reading (post : Nat) (touched : List Nat)
  | marking (post : Nat) (touched : List Nat)
  | ended
deriving DecidableEq

/-- A run of `processQueue`. -/
structure PassCall where
  postCache : List (Nat × Option PostStatus) := []
  touched : List Nat := []
  phase : PassPhase

structure PostState where
  posts : List PostStatus := []
  sends : List Recipient := []
  enqueues : List EnqueueCall := []
  passes : List PassCall := []

/-! ## Steps -/

/-- `enqueue` saves 200 rows at a time. -/
def chunkSize : Nat := 200

/-- `BATCH`. -/
def batchSize : Nat := 50

/-- What the checks before that of the post finish a row with: no contact, no consent, night. -/
def Outcome.isEarly (o : Outcome) : Bool :=
  o = ⟨.suppressed, some .contact⟩ || o = ⟨.suppressed, some .consent⟩ || o = ⟨.deferred, none⟩

/-- What comes after: an archived campaign, another brand, a pause or a hold, no sender, the answer
    of the provider. -/
def Outcome.isLate (o : Outcome) : Bool :=
  o = ⟨.suppressed, some .campaign⟩ || o = ⟨.suppressed, some .brand⟩ || o = ⟨.deferred, none⟩ ||
    o = ⟨.failed, none⟩ || o = ⟨.sent, none⟩

/-- `touched.add`. -/
def PassCall.touch (p : PassCall) (post : Nat) : List Nat :=
  if post ∈ p.touched then p.touched else p.touched ++ [post]

/-- The post of the row as the pass knows it, read once in a pass. -/
def PassCall.postOf (p : PassCall) (posts : List PostStatus) (post : Nat) :
    Option PostStatus × List (Nat × Option PostStatus) :=
  Email.cached p.postCache post posts[post]?

inductive PostAction where
  | create
  | reject (post : Nat)
  | approve (post : Nat)
  /-- The recipients that are eligible are read. -/
  | eligible (k : Nat) (contacts : List Nat)
  | enqueueNext (k : Nat)
  | enqueueThrows (k : Nat)
  /-- A pass begins, and finds rows that have been underway for too long. -/
  | begin (stuck : List Nat)
  | list (k : Nat) (due : List Nat)
  | next (k : Nat)
  | gate (k : Nat) (outcome : Outcome)
  | finish (k : Nat) (outcome : Outcome)
  /-- A statement of a pass throws, or its server dies. -/
  | stop (k : Nat)

namespace PostState

variable (s : PostState)

def setEnqueue (k : Nat) (c : EnqueueCall) : PostState :=
  { s with enqueues := s.enqueues.set k c }

def setPass (k : Nat) (p : PassCall) : PostState := { s with passes := s.passes.set k p }

def setRow (place : Nat) (r : Recipient) : PostState := { s with sends := s.sends.set place r }

/-- `UPDATE … SET status WHERE id AND status = …`. -/
def movePost (post : Nat) (before after : PostStatus) : PostState :=
  if s.posts[post]? = some before then { s with posts := s.posts.set post after } else s

/-- `sendCounts`, the rows that are open. -/
def openCount (post : Nat) : Nat := s.sends.countP fun r => r.post_id = post && r.isOpen

/-- The next statement of `enqueue`, and of the approval that called it. -/
def enqueueStep (k : Nat) (c : EnqueueCall) : Option PostState :=
  match c.phase with
  | .inserting [] => some (s.setEnqueue k { c with phase := .auditing })
  | .inserting rest =>
      let chunk := (rest.take chunkSize).map fun contact =>
        ({ post_id := c.post, contact_id := contact } : Recipient)
      some ({ s with sends := s.sends ++ chunk }.setEnqueue k
        { c with phase := .inserting (rest.drop chunkSize) })
  | .auditing =>
      some (s.setEnqueue k { c with phase := if c.recipients = 0 then .marking else .ended })
  | .marking =>
      some ((s.movePost c.post .sending .published).setEnqueue k { c with phase := .ended })
  | .failing _ =>
    some ((s.movePost c.post .sending .failed).setEnqueue k { c with phase := .ended })
  | .eligible | .ended => none

/-- Where a statement of `enqueue` throws. -/
def enqueueThrow (k : Nat) (c : EnqueueCall) : Option PostState :=
  match c.phase with
  | .eligible | .auditing | .marking => some (s.setEnqueue k { c with phase := .failing [] })
  | .inserting rest => some (s.setEnqueue k { c with phase := .failing rest })
  | .failing _ | .ended => none

/-- The next statement of a pass. -/
def passNext (k : Nat) (p : PassCall) : Option PostState :=
  match p.phase with
  | .closing [] => some (s.setPass k { p with phase := .listing })
  | .closing (place :: stuck) =>
      let s' := s.setPass k { p with phase := .closing stuck }
      match s.sends[place]? with
      | some r =>
          if r.status = .sending then some (s'.setRow place { r with status := .failed })
          else some s'
      | none => some s'
  | .claiming [] => some (s.setPass k { p with phase := .counting p.touched })
  | .claiming (place :: due) =>
      match s.sends[place]? with
      | some r =>
          if r.status.isWaiting then
            some ((s.setRow place { r with status := .sending }).setPass k
              { p with touched := PassCall.touch p r.post_id, phase := .gating place due })
          else some (s.setPass k { p with phase := .claiming due })
      | none => some (s.setPass k { p with phase := .claiming due })
  | .gating place due =>
      match s.sends[place]? with
      | some r =>
          let read := PassCall.postOf p s.posts r.post_id
          some (s.setPass k { p with
            postCache := read.2
            phase := if read.1 = some .sending then .checked place due
              else .writing place ⟨.suppressed, some (.post read.1)⟩ due })
      | none => none
  | .writing place outcome due =>
      match s.sends[place]? with
      | some r =>
          some ((s.setRow place { r with
            status := outcome.status, suppressed := outcome.suppressed }).setPass k
              { p with phase := .claiming due })
      | none => none
  | .counting [] => some (s.setPass k { p with phase := .ended })
  | .counting (post :: touched) =>
      some (s.setPass k { p with
        phase := if s.openCount post = 0 then .reading post touched else .counting touched })
  | .reading post touched =>
      some (s.setPass k { p with
        phase := if s.posts[post]? = some .sending then .marking post touched
          else .counting touched })
  | .marking post touched =>
      some ((s.movePost post .sending .published).setPass k { p with phase := .counting touched })
  | .listing | .checked .. | .ended => none

def step (a : PostAction) : Option PostState :=
  match a with
  | .create => some { s with posts := s.posts ++ [.draft] }
  | .reject post => some (s.movePost post .draft .rejected)
  | .approve post =>
      if s.posts[post]? = some .draft then
        some { s.movePost post .draft .sending with enqueues := s.enqueues ++ [{ post }] }
      else none
  | .eligible k contacts =>
      match s.enqueues[k]? with
      | some c =>
          if c.phase = .eligible then
            some (s.setEnqueue k
              { c with recipients := contacts.length, phase := .inserting contacts })
          else none
      | none => none
  | .enqueueNext k =>
      match s.enqueues[k]? with
      | some c => s.enqueueStep k c
      | none => none
  | .enqueueThrows k =>
      match s.enqueues[k]? with
      | some c => s.enqueueThrow k c
      | none => none
  | .begin stuck =>
      if stuck.all fun place => (s.sends[place]?).any (·.status = .sending) then
        some { s with passes := s.passes ++ [{ phase := .closing stuck }] }
      else none
  | .list k due =>
      match s.passes[k]? with
      | some p =>
          if p.phase = .listing ∧ due.length ≤ batchSize ∧
              due.all fun place => (s.sends[place]?).any (·.status.isWaiting) then
            some (s.setPass k { p with phase := .claiming due })
          else none
      | none => none
  | .next k =>
      match s.passes[k]? with
      | some p => s.passNext k p
      | none => none
  | .gate k outcome =>
      match s.passes[k]? with
      | some p =>
          match p.phase with
          | .gating place due =>
              if outcome.isEarly then
                some (s.setPass k { p with phase := .writing place outcome due })
              else none
          | _ => none
      | none => none
  | .finish k outcome =>
      match s.passes[k]? with
      | some p =>
          match p.phase with
          | .checked place due =>
              if outcome.isLate then
                some (s.setPass k { p with phase := .writing place outcome due })
              else none
          | _ => none
      | none => none
  | .stop k =>
      match s.passes[k]? with
      | some p => some (s.setPass k { p with phase := .ended })
      | none => none

end PostState

def postSystem : Transition PostState PostAction where
  init s := s = {}
  step s a s' := s.step a = some s'

end WorkflowBoard.PostQueue
