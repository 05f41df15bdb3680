import WorkflowBoard.ForStd.Transition
import WorkflowBoard.Native.JsDate
import WorkflowBoard.Native.JsString

/-!
# Engagement of published posts

The sweeps that read the engagement of posts (`modules/marketing/marketing-engagement.service.ts`)
and the rules they follow (`common/marketing/engagement.ts`). A sweep keeps copies of the posts it
has read; each of its statements is one step, so that sweeps of any number of servers interleave. A
sweep whose server dies, or of which a statement throws, takes no further step.

What a sweep decides of a post before it is queued (its channel, campaign and the rows that people
recorded), the rate limit and the answers of the platform come with the step. The counts of a sweep
and the rows of `marketing_metrics` from other sources are left out. A reading that is not a finite
number counts as none.
-/

namespace WorkflowBoard.Engagement

/-! ## Rules -/

inductive Metric where
  | engagements
  | replies
deriving DecidableEq

structure EngagementValue where
  engagements : Option Int := none
  replies : Option Int := none
  read_at : Option Date := none
  availability : Option String := none
  availability_checked_at : Option Date := none
deriving DecidableEq

def EngagementValue.get (v : EngagementValue) : Metric → Option Int
  | .engagements => v.engagements
  | .replies => v.replies

def EngagementValue.set (v : EngagementValue) (m : Metric) (n : Int) : EngagementValue :=
  match m with
  | .engagements => { v with engagements := some n }
  | .replies => { v with replies := some n }

/-- `EngagementReading` of a connector. -/
structure Reading where
  ref : String
  availability : Option String := none
  reactions : Option Int
  comments : Option Int
deriving DecidableEq

def Reading.get (r : Reading) : Metric → Option Int
  | .engagements => r.reactions
  | .replies => r.comments

structure Change where
  metric : Metric
  delta : Int
  note : String

/-- `FIELD_LABELS`, or what stands for it on another platform. -/
def fieldLabel (platform : String) (m : Metric) : String :=
  match platform, m with
  | "reddit", .engagements => "reddit score"
  | "reddit", .replies => "reddit comments"
  | "github", .engagements => "GitHub reactions"
  | "github", .replies => "GitHub comments"
  | _, .engagements => s!"{platform} reactions"
  | _, .replies => s!"{platform} comments"

/-- `observe`. -/
def observe (platform : String) (before : EngagementValue) (acc : List Change × EngagementValue)
    (m : Metric) (next : Option Int) : List Change × EngagementValue :=
  match next with
  | none => acc
  | some n =>
      let prev := (before.get m).getD 0
      let note := s!"{fieldLabel platform m} {prev} → {n}"
      (if n ≠ prev then acc.1 ++ [{ metric := m, delta := n - prev, note }] else acc.1,
        acc.2.set m n)

def engagementChanges (platform : String) (before : EngagementValue) (reading : Reading) :
    List Change × EngagementValue :=
  let start := ([], { engagements := before.engagements, replies := before.replies })
  observe platform before (observe platform before start .engagements reading.reactions)
    .replies reading.comments

def hourMs : Int := 60 * 60000

def dayMs : Int := 24 * hourMs

def engagementWindowMs : Int := 14 * dayMs

def engagementDeferMs : Int := 30 * 60000

def engagementIntervalMs (age : Int) : Int :=
  if age < dayMs then hourMs else if age < 3 * dayMs then 3 * hourMs else 12 * hourMs

def firstEngagementReadAt (publishedAt : Date) : Date := publishedAt + hourMs

def nextEngagementReadAt (publishedAt now : Date) : Option Date :=
  if publishedAt + engagementWindowMs ≤ now then none
  else
    some (min (now + engagementIntervalMs (now - publishedAt)) (publishedAt + engagementWindowMs))

def deferEngagementReadAt (publishedAt now : Date) : Option Date :=
  if publishedAt + engagementWindowMs ≤ now then none
  else some (min (now + engagementDeferMs) (publishedAt + engagementWindowMs))

/-! ## Rows -/

/-- The sweeps whose writes committed the values of a post. Not in the code. -/
structure Writers where
  engagements : Option Nat := none
  replies : Option Nat := none
deriving DecidableEq

def Writers.get (w : Writers) : Metric → Option Nat
  | .engagements => w.engagements
  | .replies => w.replies

/-- The sweep `k` has written what the reading says. -/
def Writers.wrote (w : Writers) (k : Nat) (r : Reading) : Writers where
  engagements := if r.reactions.isSome then some k else w.engagements
  replies := if r.comments.isSome then some k else w.replies

structure Post where
  account_id : String
  external_item_id : String
  /-- `published_at`, or else `created_at`. -/
  published_at : Date
  engagement : EngagementValue := {}
  engagement_next_at : Option Date := none
  engagement_rev : Nat := 0
  engagement_error : String := ""
  writers : Writers := {}
deriving DecidableEq

/-- A row of `marketing_metrics` with the source `connector`. -/
structure MetricRow where
  /-- Place of the post. -/
  post_id : Nat
  metric : Metric
  value : Int
  note : String

/-! ## Calls -/

/-- A post as a sweep has read it. -/
structure Copy where
  place : Nat
  row : Post
  /-- Not due yet, and read along with the others. -/
  early : Bool := false
  /-- What the connector is asked for. -/
  ref : String
deriving DecidableEq

/-- What is written of a post that is not read. -/
inductive Excuse where
  /-- `settle` without a next time. -/
  | stop (error : String)
  | fail (error : String)
  | defer (reason : String)
deriving DecidableEq

/-- What `collectChannel` goes on with. -/
inductive After where
  | connect (usable : List Copy)
  | chunks (queue : List Copy)
deriving DecidableEq

inductive SweepPhase where
  | scheduling (legacy : List Copy)
  | sorting (due : List Copy)
  | opening
  | excusing (posts : List (Copy × Excuse)) (after : After)
  | connecting (usable : List Copy)
  | chunking (queue : List Copy)
  | claiming (chunk claimed rest : List Copy)
  | asking (claimed rest : List Copy)
  | recording (claimed : List Copy) (readings : List Reading) (rest : List Copy)
deriving DecidableEq

structure Sweep where
  now : Date
  phase : SweepPhase
  /-- `byOutreach`. -/
  groups : List (String × List Copy) := []
  /-- The kind of the outreach channel that is being read. -/
  platform : String := ""
  perRequest : Nat := 1
  requests : Nat := 0
  /-- What the platform returned to it for the post at a place. Not in the code. -/
  answers : List (Nat × Reading) := []

structure EngagementState where
  posts : List Post
  metrics : List MetricRow
  sweeps : List Sweep := []

/-! ## Writes -/

/-- What `settle` sets besides the revision. -/
structure Fields where
  engagement_next_at : Option (Option Date) := none
  engagement_error : Option String := none

def Post.settled (p : Post) (f : Fields) : Post :=
  { p with
    engagement_next_at := f.engagement_next_at.getD p.engagement_next_at
    engagement_error := f.engagement_error.getD p.engagement_error
    engagement_rev := p.engagement_rev + 1 }

/-- `post.engagement_rev += 1`, in memory. -/
def Copy.advanced (c : Copy) : Copy :=
  { c with row := { c.row with engagement_rev := c.row.engagement_rev + 1 } }

/-- `MAX_ERROR`. -/
def maxError : Nat := 500

/-- What `fail`, `defer` and the early stops of a sweep write. -/
def Excuse.fields (publishedAt now : Date) : Excuse → Fields
  | .stop error => { engagement_next_at := some none, engagement_error := some error }
  | .fail error =>
      { engagement_next_at := some (nextEngagementReadAt publishedAt now)
        engagement_error := some (sliceText maxError error) }
  | .defer reason =>
      let next := deferEngagementReadAt publishedAt now
      let error := if next.isSome then reason
        else s!"the 14-day window ended before it could be read again ({reason})"
      { engagement_next_at := some next, engagement_error := some (sliceText maxError error) }

/-- What `record` sets, from a copy of the post. -/
def Post.recorded (p : Post) (k : Nat) (c : Copy) (value : EngagementValue) (reading : Reading)
    (now : Date) : Post :=
  { p with
    engagement := { value with
      read_at := some now
      availability := reading.availability
      availability_checked_at := reading.availability.map fun _ => now }
    engagement_next_at :=
      if reading.availability.isSome then none else nextEngagementReadAt c.row.published_at now
    engagement_error := ""
    engagement_rev := p.engagement_rev + 1
    writers := p.writers.wrote k reading }

namespace EngagementState

variable (s : EngagementState)

/-- Update the post where the revision is that of the copy. Whether it was. -/
def settle (c : Copy) (f : Fields) : Bool × EngagementState :=
  match s.posts[c.place]? with
  | some p =>
      if p.engagement_rev = c.row.engagement_rev then
        (true, { s with posts := s.posts.set c.place (p.settled f) })
      else (false, s)
  | none => (false, s)

/-- `record` of the sweep `k`, one transaction. -/
def record (k : Nat) (c : Copy) (platform : String) (reading : Reading) (now : Date) :
    EngagementState :=
  match s.posts[c.place]? with
  | some p =>
      if p.engagement_rev = c.row.engagement_rev then
        let changed := engagementChanges platform c.row.engagement reading
        { s with
          posts := s.posts.set c.place (p.recorded k c changed.2 reading now)
          metrics := s.metrics ++ changed.1.map fun x =>
            { post_id := c.place, metric := x.metric, value := x.delta, note := x.note } }
      else s
  | none => s

/-- The post at `place` as a sweep reads it. -/
def copyOf (place : Nat) : Option Copy :=
  (s.posts[place]?).map fun row => { place, row, ref := row.external_item_id }

def setSweep (k : Nat) (c : Sweep) : EngagementState := { s with sweeps := s.sweeps.set k c }

end EngagementState

/-! ## Steps -/

/-- `BATCH`. -/
def batch : Nat := 500

def maxRequestsPerSweep : Nat := 30

/-- `LEASE_MS`. -/
def leaseMs : Int := 15 * 60000

def ENGAGEMENT_RATE_WAIT : String := "waiting for room under the channel's rate limit"

def ENGAGEMENT_MANUAL_ROWS : String :=
  "not collected: engagements or replies were recorded by hand for it before automatic " ++
    "collection — reading it too would count them twice"

/-- What `scheduleUntracked` finds of a post. -/
inductive Untracked where
  /-- No post of a platform. -/
  | foreign
  /-- Engagement was recorded by hand. -/
  | counted
  | fresh

def Untracked.fields (publishedAt now : Date) : Untracked → Fields
  | .foreign => {}
  | .counted => { engagement_error := some ENGAGEMENT_MANUAL_ROWS }
  | .fresh => { engagement_next_at := some (some (max now (firstEngagementReadAt publishedAt))) }

/-- What a sweep decides of a post that is due. -/
inductive Verdict where
  | excuse (e : Excuse)
  /-- It is read over the outreach channel; of a manual post with the reference of its permalink. -/
  | collect (outreachId : String) (manual : Option String)

/-- What comes of the connection to an outreach channel. -/
inductive Connection where
  | noRoom
  | unreachable (error : String)
  | cannotRead
  /-- The posts that are read along are those of `upcoming`. -/
  | ready (perRequest : Nat) (early : List Nat)

/-- How a platform refuses a request. -/
inductive Refusal where
  | rateLimited
  | forbidden
  | other

inductive SweepAction where
  | publish (account_id external_item_id : String) (published_at : Date) (next : Option Date)
  /-- A sweep begins, and reads the posts that are not tracked. -/
  | sweep (now : Date) (legacy : List Nat)
  | untracked (k : Nat) (found : Untracked)
  | list (k : Nat) (due : List Nat)
  | sort (k : Nat) (verdict : Verdict)
  /-- The next outreach channel is read: its account and kind, if it is there. -/
  | openChannel (k : Nat) (outreach : Option (String × String))
  | excuse (k : Nat)
  | connect (k : Nat) (result : Connection)
  | chunk (k : Nat) (room : Bool)
  | claim (k : Nat) (time : Date)
  | answer (k : Nat) (readings : List Reading)
  | refuse (k : Nat) (error : String) (how : Refusal)
  | record (k : Nat)

/-- The sweep that takes the step. -/
def SweepAction.sweep? : SweepAction → Option Nat
  | .publish .. | .sweep .. => none
  | .untracked k _ | .list k _ | .sort k _ | .openChannel k _ | .excuse k | .connect k _
  | .chunk k _ | .claim k _ | .answer k _ | .refuse k _ _ | .record k => some k

def notReturned : Excuse :=
  .fail "the platform did not return it (deleted, removed, or outside the channel whitelist)"

/-- `group.push` under the key. -/
def pushGroup (key : String) (c : Copy) : List (String × List Copy) → List (String × List Copy)
  | [] => [(key, [c])]
  | (key', group) :: groups =>
      if key' = key then (key', group ++ [c]) :: groups
      else (key', group) :: pushGroup key c groups

/-- `byRef.get`: of several readings with the reference, the last. -/
def byRef (readings : List Reading) (ref : String) : Option Reading :=
  readings.findRev? fun r => r.ref = ref

/-- Where `collectChannel` goes on. -/
def After.phase : After → SweepPhase
  | .connect [] => .opening
  | .connect (c :: usable) => .connecting (c :: usable)
  | .chunks [] => .opening
  | .chunks (c :: queue) => .chunking (c :: queue)

/-- The posts are excused one after the other. -/
def excusing (posts : List Copy) (e : Excuse) (after : After) : SweepPhase :=
  .excusing (posts.map (·, e)) after

/-- The rest of a queue without the posts that are not due. -/
def notEarly (queue : List Copy) : List Copy := queue.filter (!·.early)

namespace Sweep

/-- What a connection leads to. -/
def connected (c : Sweep) (usable early : List Copy) : Connection → Sweep
  | .noRoom => { c with phase := excusing usable (.defer ENGAGEMENT_RATE_WAIT) (.chunks []) }
  | .unreachable error =>
      { c with
        phase := excusing usable (.fail s!"could not reach the channel: {error}") (.chunks []) }
  | .cannotRead =>
      { c with phase := excusing usable (.stop "this channel cannot read engagement") (.chunks []) }
  | .ready perRequest _ =>
      { c with perRequest := max 1 perRequest, requests := 0, phase := .chunking (usable ++ early) }

/-- The next chunk, if the limits leave room for a request. -/
def chunked (c : Sweep) (queue : List Copy) (room : Bool) : Sweep :=
  if c.requests ≥ maxRequestsPerSweep then { c with phase := .opening }
  else if room then
    { c with phase := .claiming (queue.take c.perRequest) [] (queue.drop c.perRequest) }
  else
    { c with phase := excusing (notEarly queue) (.defer ENGAGEMENT_RATE_WAIT) (.chunks []) }

/-- The request for the claimed posts is refused. -/
def refused (c : Sweep) (claimed rest : List Copy) (error : String) : Refusal → Sweep
  | .rateLimited =>
      { c with
        phase := .excusing
          (claimed.map (·, .defer s!"{ENGAGEMENT_RATE_WAIT}: {error}") ++
            (notEarly rest).map (·, .defer ENGAGEMENT_RATE_WAIT)) (.chunks []) }
  | .forbidden =>
      { c with
        phase := .excusing
          (claimed.map (·, .fail error) ++
            (notEarly rest).map
              (·, .defer s!"not tried after the channel refused a request: {error}"))
          (.chunks []) }
  | .other => { c with phase := excusing claimed (.fail error) (.chunks rest) }

end Sweep

namespace EngagementState

variable (s : EngagementState)

/-- The steps of the sweep at `k`. -/
def sweepStep (k : Nat) (c : Sweep) : SweepAction → Option EngagementState
  | .untracked _ found =>
      match c.phase with
      | .scheduling (p :: legacy) =>
          let settled := s.settle p (found.fields p.row.published_at c.now)
          some (settled.2.setSweep k { c with phase := .scheduling legacy })
      | _ => none
  | .list _ due =>
      if c.phase = .scheduling [] ∧ due.length ≤ batch ∧
          due.all fun place => (s.posts[place]?).any (·.engagement_next_at.any (· ≤ c.now)) then
        some (s.setSweep k { c with phase := .sorting (due.filterMap s.copyOf) })
      else none
  | .sort _ verdict =>
      match c.phase, verdict with
      | .sorting (p :: due), .excuse e =>
          let settled := s.settle p (e.fields p.row.published_at c.now)
          some (settled.2.setSweep k { c with phase := .sorting due })
      | .sorting (p :: due), .collect outreachId manual =>
          some (s.setSweep k { c with
            phase := .sorting due
            groups := pushGroup outreachId { p with ref := manual.getD p.ref } c.groups })
      | _, _ => none
  | .openChannel _ outreach =>
      match c.phase, c.groups with
      | .sorting [], groups => some (s.setSweep k { c with phase := .opening, groups })
      | .opening, (_, posts) :: groups =>
          let usable := posts.filter fun p => outreach.any (·.1 = p.row.account_id)
          let gone := posts.filter fun p => !outreach.any (·.1 = p.row.account_id)
          let error := "the channel's outreach connection is gone — reconnect it"
          some (s.setSweep k { c with
            groups
            platform := outreach.elim "" (·.2)
            phase := excusing gone (.fail error) (.connect usable) })
      | _, _ => none
  | .excuse _ =>
      match c.phase with
      | .excusing [] after => some (s.setSweep k { c with phase := after.phase })
      | .excusing ((p, e) :: posts) after =>
          let settled := s.settle p (e.fields p.row.published_at c.now)
          some (settled.2.setSweep k { c with phase := .excusing posts after })
      | _ => none
  | .connect _ result =>
      match c.phase, result with
      | .connecting usable, .ready _ early =>
          let read := (early.filterMap s.copyOf).map fun p => { p with early := true }
          some (s.setSweep k (c.connected usable read result))
      | .connecting usable, _ => some (s.setSweep k (c.connected usable [] result))
      | _, _ => none
  | .chunk _ room =>
      match c.phase with
      | .chunking [] => some (s.setSweep k { c with phase := .opening })
      | .chunking queue => some (s.setSweep k (c.chunked queue room))
      | _ => none
  | .claim _ time =>
      match c.phase with
      | .claiming [] [] rest => some (s.setSweep k { c with phase := .chunking rest })
      | .claiming [] claimed rest =>
          some (s.setSweep k
            { c with requests := c.requests + 1, phase := .asking claimed rest })
      | .claiming (p :: chunk) claimed rest =>
          let settled := s.settle p { engagement_next_at := some (some (time + leaseMs)) }
          let claimed := if settled.1 then claimed ++ [p.advanced] else claimed
          some (settled.2.setSweep k { c with phase := .claiming chunk claimed rest })
      | _ => none
  | .answer _ readings =>
      match c.phase with
      | .asking claimed rest =>
          some (s.setSweep k { c with
            phase := .recording claimed readings rest
            answers := c.answers ++
              claimed.filterMap fun p => (byRef readings p.ref).map (p.place, ·) })
      | _ => none
  | .refuse _ error how =>
      match c.phase with
      | .asking claimed rest => some (s.setSweep k (c.refused claimed rest error how))
      | _ => none
  | .record _ =>
      match c.phase with
      | .recording [] _ rest => some (s.setSweep k { c with phase := .chunking rest })
      | .recording (p :: claimed) readings rest =>
          let next := { c with phase := .recording claimed readings rest }
          match byRef readings p.ref with
          | some reading => some ((s.record k p c.platform reading c.now).setSweep k next)
          | none =>
              let settled := s.settle p (notReturned.fields p.row.published_at c.now)
              some (settled.2.setSweep k next)
      | _ => none
  | .publish .. | .sweep .. => none

def step (a : SweepAction) : Option EngagementState :=
  match a with
  | .publish account_id external_item_id published_at engagement_next_at =>
      some { s with posts := s.posts ++
        [{ account_id, external_item_id, published_at, engagement_next_at }] }
  | .sweep now legacy =>
      if legacy.length ≤ batch ∧ legacy.all fun place => (s.posts[place]?).any fun p =>
          p.engagement_next_at.isNone && p.engagement_rev = 0 &&
            now - engagementWindowMs ≤ p.published_at then
        some { s with sweeps := s.sweeps ++
          [{ now, phase := .scheduling (legacy.filterMap s.copyOf) }] }
      else none
  | a => a.sweep?.bind fun k => (s.sweeps[k]?).bind fun c => s.sweepStep k c a

end EngagementState

def engagementSystem : Transition EngagementState SweepAction where
  init s := s.sweeps = []
  step s a s' := s.step a = some s'

end WorkflowBoard.Engagement
