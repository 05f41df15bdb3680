import WorkflowBoard.ForStd.InsertMap
import WorkflowBoard.ForStd.Transition
import WorkflowBoard.Native.JsDate
import WorkflowBoard.Native.JsString

/-!
# The life of a graph (`server/src/modules/ontology/ontology-lifecycle.service.ts`)

A graph is built by one build at a time. A claim gives the graph's row to a build under a new
`build_id` and for the time of a lease, which the build renews. The statements that renew the lease
or end the build change the row only while it has that `build_id`. A build whose lease has run out
counts as abandoned: a read releases the row, and a refresh claims it again.

Any number of servers share the database. A statement, a replace transaction and what a server
does between two of them are one step each, and the steps of all calls and builds interleave.
`nowMs` is the server's `Date.now()` at that step. Any row that was read may be old by the time it
is used.

`persist` and `resolve` stand for the rows of `persistExtraction` and `resolveGraph`. The slots,
which only delay a build, the timers and the texts of the log are left out.
-/

namespace WorkflowBoard.Ontology

inductive GraphStatus where
  | building
  | ready
  | stale
  | error
deriving DecidableEq

/-- The columns of the unique index. -/
structure GraphKey where
  account_id : String
  resource_id : String
  folder_path : String
deriving DecidableEq

structure BuildProgress where
  files_discovered : Nat
  files_failed_extraction : Nat
  nodes_inserted : Nat
  edges_inserted : Nat

structure OntologyGraph where
  id : String
  key : GraphKey
  status : GraphStatus
  indexed_at : Option Date := none
  commit : String := ""
  progress : Option BuildProgress := none
  error : String := ""
  build_id : String := ""
  build_lease_until_ms : Option Date := none

/-- `RepoExtraction`. -/
structure RepoExtraction (χ : Type) where
  commit : String
  filesDiscovered : Nat
  filesFailedExtraction : Nat
  facts : χ

/-- A row of the nodes, the edges or the reverse index. -/
structure StoredRow (ν : Type) where
  graph_id : String
  row : ν

structure PersistSummary (ν : Type) where
  rows : List ν
  nodesInserted : Nat
  edgesInserted : Nat

structure ResolveSummary (ν : Type) where
  rows : List ν
  edgesInserted : Nat

/-- The rows of a graph from what was extracted, and those after the references are resolved. -/
structure GraphPipeline (χ ν : Type) where
  persist : String → RepoExtraction χ → PersistSummary ν
  resolve : String → RepoExtraction χ → List ν → ResolveSummary ν

structure LifecycleOptions where
  buildLeaseMs : Int := 2 * 60000
  buildMaxMs : Int := 2 * 60 * 60000
  renewPeriodically : Bool := true
  /-- The database is this process's own (`AppOntologyDataSource`). -/
  sqljs : Bool := false

def interruptedBuildError : String :=
  "graph build was interrupted by a server restart — refresh the graph to rebuild"

def abandonedBuildError : String :=
  "graph build was abandoned — the server running it stopped (restart or crash) or the build " ++
    "hung — refresh the graph to rebuild"

def maxDurationError : String :=
  "graph build ran past its maximum duration before it could replace the graph" ++
    " — refresh the graph to rebuild"

/-! ## Statements -/

/-- `BUILD_LEASE_EXPIRED_SQL`. -/
def OntologyGraph.leaseExpired (g : OntologyGraph) (nowMs : Date) : Bool :=
  g.build_lease_until_ms.all fun until_ms => (until_ms : Int) < nowMs

/-- The row is this build's. -/
def OntologyGraph.heldBy (g : OntologyGraph) (graphId buildId : String) : Bool :=
  g.id = graphId && g.build_id = buildId

/-- An `UPDATE`: whether a row was affected, and the table after it. -/
def updateGraphs (p : OntologyGraph → Bool) (f : OntologyGraph → OntologyGraph)
    (graphs : List OntologyGraph) : Bool × List OntologyGraph :=
  (graphs.any p, graphs.map fun g => if p g then f g else g)

def OntologyGraph.claimable (g : OntologyGraph) (nowMs : Date) (liveHere : List String) : Bool :=
  g.status ≠ .building || (g.leaseExpired nowMs && !liveHere.contains g.build_id)

def claimGraph (opts : LifecycleOptions) (nowMs : Date) (graphId buildId : String)
    (liveHere : List String) : List OntologyGraph → Bool × List OntologyGraph :=
  updateGraphs (fun g => g.id = graphId && g.claimable nowMs liveHere) fun g =>
    { g with
      status := .building
      error := ""
      build_id := buildId
      build_lease_until_ms := some (nowMs + opts.buildLeaseMs) }

def releaseGraph (nowMs : Date) (graphId buildId : String) :
    List OntologyGraph → Bool × List OntologyGraph :=
  updateGraphs
    (fun g => g.heldBy graphId buildId && g.status = .building && g.leaseExpired nowMs) fun g =>
    { g with
      status := .error
      error := abandonedBuildError
      build_id := ""
      build_lease_until_ms := none }

def renewGraph (opts : LifecycleOptions) (nowMs : Date) (graphId buildId : String) :
    List OntologyGraph → Bool × List OntologyGraph :=
  updateGraphs (·.heldBy graphId buildId) fun g =>
    { g with build_lease_until_ms := some (nowMs + opts.buildLeaseMs) }

def failGraph (graphId buildId error : String) : List OntologyGraph → Bool × List OntologyGraph :=
  updateGraphs (·.heldBy graphId buildId) fun g =>
    { g with
      status := .error
      error := sliceText 500 error
      build_id := ""
      build_lease_until_ms := none }

def finishGraph (now : Date) (graphId buildId commit : String) (progress : BuildProgress) :
    List OntologyGraph → Bool × List OntologyGraph :=
  updateGraphs (·.heldBy graphId buildId) fun g =>
    { g with
      status := .ready
      indexed_at := some now
      commit
      progress := some progress
      error := ""
      build_id := ""
      build_lease_until_ms := none }

def failInterruptedBuilds : List OntologyGraph → Bool × List OntologyGraph :=
  updateGraphs (fun g => g.status = .building) fun g =>
    { g with
      status := .error
      error := interruptedBuildError
      build_id := ""
      build_lease_until_ms := none }

section Rows

variable {χ ν : Type}

/-- The rows of one graph. -/
def rowsOf (graphId : String) (rows : List (StoredRow ν)) : List ν :=
  (rows.filter (·.graph_id = graphId)).map (·.row)

def clearExistingGraphRows (graphId : String) (rows : List (StoredRow ν)) : List (StoredRow ν) :=
  rows.filter (·.graph_id ≠ graphId)

/-- Add the rows of a graph. -/
def insertRows (graphId : String) (new : List ν) (rows : List (StoredRow ν)) :
    List (StoredRow ν) :=
  rows ++ new.map fun row => { graph_id := graphId, row }

/-- The rows after the replace transaction, and what it counts. -/
def replaceRows (pipeline : GraphPipeline χ ν) (graphId : String) (x : RepoExtraction χ)
    (rows : List (StoredRow ν)) : BuildProgress × List (StoredRow ν) :=
  let persisted := pipeline.persist graphId x
  let rows := insertRows graphId persisted.rows (clearExistingGraphRows graphId rows)
  let resolved := pipeline.resolve graphId x (rowsOf graphId rows)
  ({ files_discovered := x.filesDiscovered
     files_failed_extraction := x.filesFailedExtraction
     nodes_inserted := persisted.nodesInserted
     edges_inserted := persisted.edgesInserted + resolved.edgesInserted },
    insertRows graphId resolved.rows (clearExistingGraphRows graphId rows))

end Rows

/-! ## Servers -/

structure LiveBuild where
  startedAt : Option Int := none
  replacing : Bool := false

structure GraphServer where
  liveBuilds : InsertMap String LiveBuild := {}
  /-- `performance.now()`. -/
  clock : Int := 0

def GraphServer.pastMaxDuration (opts : LifecycleOptions) (v : GraphServer) (live : LiveBuild) :
    Bool :=
  live.startedAt.any fun startedAt => opts.buildMaxMs ≤ v.clock - startedAt

def GraphServer.isLiveHere (opts : LifecycleOptions) (v : GraphServer) (buildId : String) : Bool :=
  (v.liveBuilds.get buildId).any fun live => live.replacing || !v.pastMaxDuration opts live

/-- The keys of `liveBuilds`. -/
def GraphServer.known (v : GraphServer) : List String := v.liveBuilds.entries.map (·.1)

/-- How far a call of `resolveOrProvision` has come. -/
inductive CallPhase where
  /-- `getOrCreateGraph` has found no row. -/
  | inserting (key : GraphKey)
  /-- The insert has met the unique index. -/
  | conflicted (key : GraphKey)
  /-- `releaseAbandonedBuild` is called with a row. -/
  | found (graph : OntologyGraph)
  /-- It has found the build abandoned, when `liveBuilds` had the builds `known`; its statement
      waits. -/
  | looked (graph : OntologyGraph) (known : List String)
  | returned

structure GraphCall where
  server : Nat
  phase : CallPhase

/-- How far a build has come, from the claim of `forceRebuild` on. -/
inductive BuildPhase (χ : Type) where
  /-- `liveHere` is made, when `liveBuilds` had the builds `known`; the statement waits. -/
  | claiming (known liveHere : List String)
  | refused
  | claimed
  /-- For a slot. -/
  | waiting
  | starting
  | extracting
  | extracted (x : RepoExtraction χ)
  /-- The second renewal has found the row still its own. -/
  | held (x : RepoExtraction χ)
  | replacing (x : RepoExtraction χ)
  | failing (error : String)
  | finishing
  | finished
  /-- Its server has stopped. -/
  | lost

structure GraphBuild (χ : Type) where
  server : Nat
  graphId : String
  buildId : String
  phase : BuildPhase χ
  /-- The heartbeat is not stopped. -/
  beating : Bool := false
  /-- A renewal of the heartbeat is under way. -/
  renewing : Bool := false

/-- What is left of a build when its server stops. -/
def GraphBuild.stop {χ : Type} (k : Nat) (b : GraphBuild χ) : GraphBuild χ :=
  if b.server = k then { b with phase := .lost, beating := false, renewing := false } else b

def GraphCall.stop (k : Nat) (c : GraphCall) : GraphCall :=
  if c.server = k then { c with phase := .returned } else c

/-- A build whose replace transaction was committed. -/
structure ReadyBuild (χ : Type) where
  graphId : String
  buildId : String
  extraction : RepoExtraction χ

/-- `ready` is the history of the committed builds, the last one at the end. -/
structure GraphCluster (χ ν : Type) where
  graphs : List OntologyGraph := []
  rows : List (StoredRow ν) := []
  server : Nat → GraphServer := fun _ => {}
  calls : List GraphCall := []
  builds : List (GraphBuild χ) := []
  ready : List (ReadyBuild χ) := []

inductive LifecycleStep (χ : Type) where
  | provision (server : Nat) (key : GraphKey)
  | resolve (server : Nat) (graphId accountId : String)
  | insert (call : Nat) (graphId buildId : String) (nowMs : Date)
  | reread (call : Nat)
  | look (call : Nat) (nowMs : Date)
  | release (call : Nat) (nowMs : Date)
  | rebuild (server : Nat) (graphId accountId buildId : String)
  | claim (build : Nat) (nowMs : Date)
  | kickOff (build : Nat)
  | acquire (build : Nat)
  | renew (build : Nat) (nowMs : Date)
  | extract (build : Nat) (x : RepoExtraction χ)
  | startReplace (build : Nat)
  | replace (build : Nat) (now : Date)
  /-- An exception in the build. -/
  | throws (build : Nat) (error : String)
  | failBuild (build : Nat)
  | finish (build : Nat)
  | beat (build : Nat)
  | renewal (build : Nat) (nowMs : Date)
  | renewalFails (build : Nat)
  /-- Time passes on a server. -/
  | tick (server : Nat) (ms : Nat)
  /-- A server stops, by a crash or not, and starts again. -/
  | restart (server : Nat)

namespace GraphCluster

variable {χ ν : Type}

def setServer (s : GraphCluster χ ν) (k : Nat) (v : GraphServer) : GraphCluster χ ν :=
  { s with server := fun j => if j = k then v else s.server j }

def setLive (s : GraphCluster χ ν) (b : GraphBuild χ) (live : LiveBuild) : GraphCluster χ ν :=
  let v := s.server b.server
  s.setServer b.server { v with liveBuilds := v.liveBuilds.set b.buildId live }

def setCall (s : GraphCluster χ ν) (i : Nat) (c : GraphCall) (phase : CallPhase) :
    GraphCluster χ ν :=
  { s with calls := s.calls.set i { c with phase } }

def setBuild (s : GraphCluster χ ν) (i : Nat) (b : GraphBuild χ) : GraphCluster χ ν :=
  { s with builds := s.builds.set i b }

/-- The way into `finally`: the heartbeat is stopped. -/
def endBuild (s : GraphCluster χ ν) (i : Nat) (b : GraphBuild χ) (phase : BuildPhase χ) :
    GraphCluster χ ν :=
  s.setBuild i { b with phase, beating := false }

/-- The build of a call of `getOrCreateGraph` or `forceRebuild`. -/
def addBuild (s : GraphCluster χ ν) (server : Nat) (graphId buildId : String)
    (phase : BuildPhase χ) : GraphCluster χ ν :=
  { s with builds := s.builds ++ [{ server, graphId, buildId, phase }] }

/-- `randomUUID()`. -/
def isNew (s : GraphCluster χ ν) (buildId : String) : Bool :=
  buildId ≠ "" && s.builds.all (·.buildId ≠ buildId)

def callStep (opts : LifecycleOptions) (s : GraphCluster χ ν) (i : Nat) (c : GraphCall) :
    LifecycleStep χ → Except String (GraphCluster χ ν)
  | .insert _ graphId buildId nowMs =>
    match c.phase with
    | .inserting key =>
      if s.graphs.any (·.key = key) then .ok (s.setCall i c (.conflicted key))
      else if s.isNew buildId && s.graphs.all (·.id ≠ graphId) then
        let created : OntologyGraph :=
          { id := graphId
            key
            status := .building
            build_id := buildId
            build_lease_until_ms := some (nowMs + opts.buildLeaseMs) }
        let s := { s with graphs := s.graphs ++ [created] }
        .ok ((s.setCall i c .returned).addBuild c.server graphId buildId .claimed)
      else .error "not a new identifier"
    | _ => .error "no insert is due"
  | .reread _ =>
    match c.phase with
    | .conflicted key =>
      match s.graphs.find? (·.key = key) with
      | some winner => .ok (s.setCall i c (.found winner))
      | none => .ok (s.setCall i c .returned)
    | _ => .error "no conflict"
  | .look _ nowMs =>
    match c.phase with
    | .found g =>
      let v := s.server c.server
      if g.status ≠ .building || v.isLiveHere opts g.build_id || !g.leaseExpired nowMs then
        .ok (s.setCall i c .returned)
      else .ok (s.setCall i c (.looked g v.known))
    | _ => .error "no row is found"
  | .release _ nowMs =>
    match c.phase with
    | .looked g _ =>
      let graphs := (releaseGraph nowMs g.id g.build_id s.graphs).2
      .ok ({ s with graphs }.setCall i c .returned)
    | _ => .error "nothing to release"
  | _ => .error "not a step of a call"

def buildStep (opts : LifecycleOptions) (pipeline : GraphPipeline χ ν) (s : GraphCluster χ ν)
    (i : Nat) (b : GraphBuild χ) : LifecycleStep χ → Except String (GraphCluster χ ν)
  | .claim _ nowMs =>
    match b.phase with
    | .claiming _ liveHere =>
      let (won, graphs) := claimGraph opts nowMs b.graphId b.buildId liveHere s.graphs
      .ok ({ s with graphs }.setBuild i { b with phase := if won then .claimed else .refused })
    | _ => .error "no claim is due"
  | .kickOff _ =>
    match b.phase with
    | .claimed =>
      .ok ((s.setLive b {}).setBuild i
        { b with phase := .waiting, beating := opts.renewPeriodically })
    | _ => .error "not claimed"
  | .acquire _ =>
    match b.phase, (s.server b.server).liveBuilds.get b.buildId with
    | .waiting, some live =>
      .ok ((s.setLive b { live with startedAt := some (s.server b.server).clock }).setBuild i
        { b with phase := .starting })
    | _, _ => .error "not waiting"
  | .renew _ nowMs =>
    let (held, graphs) := renewGraph opts nowMs b.graphId b.buildId s.graphs
    let s := { s with graphs }
    match b.phase with
    | .starting =>
      .ok (if held then s.setBuild i { b with phase := .extracting } else s.endBuild i b .finishing)
    | .extracted x =>
      .ok (if held then s.setBuild i { b with phase := .held x } else s.endBuild i b .finishing)
    | _ => .error "no renewal is due"
  | .extract _ x =>
    match b.phase with
    | .extracting => .ok (s.setBuild i { b with phase := .extracted x })
    | _ => .error "not extracting"
  | .startReplace _ =>
    match b.phase, (s.server b.server).liveBuilds.get b.buildId with
    | .held x, some live =>
      if (s.server b.server).pastMaxDuration opts live then
        .ok (s.endBuild i b (.failing maxDurationError))
      else .ok ((s.setLive b { live with replacing := true }).setBuild i
        { b with phase := .replacing x })
    | _, _ => .error "the row is not held"
  | .replace _ now =>
    match b.phase with
    | .replacing x =>
      let (progress, rows) := replaceRows pipeline b.graphId x s.rows
      let (finished, graphs) := finishGraph now b.graphId b.buildId x.commit progress s.graphs
      -- otherwise the transaction is rolled back
      if finished then
        let ready := s.ready ++ [{ graphId := b.graphId, buildId := b.buildId, extraction := x }]
        .ok ({ s with graphs, rows, ready }.endBuild i b .finishing)
      else .ok (s.endBuild i b .finishing)
    | _ => .error "not replacing"
  | .throws _ e =>
    match b.phase with
    | .waiting | .starting | .extracting | .extracted _ | .replacing _ =>
      .ok (s.endBuild i b (.failing e))
    | .failing _ => .ok (s.endBuild i b .finishing)
    | _ => .error "nothing is awaited"
  | .failBuild _ =>
    match b.phase with
    | .failing e =>
      let graphs := (failGraph b.graphId b.buildId e s.graphs).2
      .ok ({ s with graphs }.endBuild i b .finishing)
    | _ => .error "not failing"
  | .finish _ =>
    match b.phase with
    | .finishing =>
      let v := s.server b.server
      .ok ((s.setServer b.server { v with liveBuilds := v.liveBuilds.delete b.buildId }).setBuild i
        { b with phase := .finished })
    | _ => .error "not finishing"
  | .beat _ =>
    match (s.server b.server).liveBuilds.get b.buildId with
    | some live =>
      if !b.beating || b.renewing then .error "no beat is due"
      else if !live.replacing && (s.server b.server).pastMaxDuration opts live then
        .ok (s.setBuild i { b with beating := false })
      else .ok (s.setBuild i { b with renewing := true })
    | none => .error "not running"
  | .renewal _ nowMs =>
    if b.renewing then
      let (held, graphs) := renewGraph opts nowMs b.graphId b.buildId s.graphs
      .ok ({ s with graphs }.setBuild i
        { b with renewing := false, beating := b.beating && held })
    else .error "no renewal is under way"
  | .renewalFails _ =>
    if b.renewing then .ok (s.setBuild i { b with renewing := false })
    else .error "no renewal is under way"
  | _ => .error "not a step of a build"

def act (opts : LifecycleOptions) (pipeline : GraphPipeline χ ν) (s : GraphCluster χ ν)
    (a : LifecycleStep χ) : Except String (GraphCluster χ ν) :=
  match a with
  | .provision server key =>
    match s.graphs.find? (·.key = key) with
    | some g => .ok { s with calls := s.calls ++ [{ server, phase := .found g }] }
    | none => .ok { s with calls := s.calls ++ [{ server, phase := .inserting key }] }
  | .resolve server graphId accountId =>
    match s.graphs.find? (·.id = graphId) with
    | some g =>
      if g.key.account_id = accountId then
        .ok { s with calls := s.calls ++ [{ server, phase := .found g }] }
      else .error "Ontology graph not found in this account"
    | none => .error "Ontology graph not found in this account"
  | .rebuild server graphId accountId buildId =>
    match s.graphs.find? (·.id = graphId) with
    | some g =>
      if g.key.account_id ≠ accountId then .error "Ontology graph not found in this account"
      else if s.isNew buildId then
        let known := (s.server server).known
        .ok (s.addBuild server g.id buildId
          (.claiming known (known.filter ((s.server server).isLiveHere opts))))
      else .error "not a new identifier"
    | none => .error "Ontology graph not found in this account"
  | .insert i _ _ _ | .reread i | .look i _ | .release i _ =>
    match s.calls[i]? with
    | some c => s.callStep opts i c a
    | none => .error "no such call"
  | .claim i _ | .kickOff i | .acquire i | .renew i _ | .extract i _ | .startReplace i
  | .replace i _ | .throws i _ | .failBuild i | .finish i | .beat i | .renewal i _
  | .renewalFails i =>
    match s.builds[i]? with
    | some b => s.buildStep opts pipeline i b a
    | none => .error "no such build"
  | .tick k ms =>
    let v := s.server k
    .ok (s.setServer k { v with clock := v.clock + ms })
  | .restart k =>
    let graphs := if opts.sqljs then (failInterruptedBuilds s.graphs).2 else s.graphs
    let s := { s with
      graphs
      calls := s.calls.map (GraphCall.stop k)
      builds := s.builds.map (GraphBuild.stop k) }
    .ok (s.setServer k {})

def system (opts : LifecycleOptions) (pipeline : GraphPipeline χ ν) :
    Transition (GraphCluster χ ν) (LifecycleStep χ) where
  init s := s.graphs = [] ∧ s.rows = [] ∧ s.calls = [] ∧ s.builds = [] ∧ s.ready = [] ∧
    ∀ k, (s.server k).liveBuilds.entries = []
  step s a s' := s.act opts pipeline a = .ok s'

end GraphCluster

end WorkflowBoard.Ontology
