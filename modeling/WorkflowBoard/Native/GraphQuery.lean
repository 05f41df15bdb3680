import Mathlib.Algebra.Order.Ring.Rat
import WorkflowBoard.ForStd.InsertMap

/-!
# `graph_call_path` (`server/src/modules/ontology/query/graph-query.ts`)

A search by levels from both ends. In every round one side is expanded by one level: its frontier
is read in chunks, and for each chunk first the edges into the other side are read and then, if
there are none, the new vertices. The edges are a table; a query denotes a list of its rows. The
two dialects denote the same rows.

Identifiers are generic: the order of `ORDER BY id` is that of the collation. An absent or empty
identifier of the input is `none`. `arrange` is the order in which the database returns the rows
of a query without `ORDER BY`. The duration is left out.
-/

namespace WorkflowBoard.Ontology

/-- `MAX_CALL_PATH_HOPS`. -/
def maxCallPathHops : Nat := 10

/-- `MAX_CALL_PATH_VISITED`. -/
def maxCallPathVisited : Nat := 50000

/-- `FRONTIER_CHUNK_SIZE`. -/
def frontierChunkSize : Nat := 500

/-- `CANDIDATE_KEY_CHUNK_SIZE`. -/
def candidateKeyChunkSize : Nat := 200

inductive OntologyStatus where
  | active
  | stale
  | removed
  | quarantined
deriving DecidableEq

/-- The columns of `ontology_edges` that the queries read. -/
structure EdgeRow (ι : Type) where
  id : ι
  graphId : ι
  srcId : ι
  dstId : ι
  type : String
  status : OntologyStatus
  confidence : ℚ

structure GraphCallPathStep (ι : Type) where
  edgeId : ι
  srcId : ι
  dstId : ι
  type : String
  confidence : ℚ
deriving DecidableEq

def EdgeRow.step {ι : Type} (e : EdgeRow ι) : GraphCallPathStep ι where
  edgeId := e.id
  srcId := e.srcId
  dstId := e.dstId
  type := e.type
  confidence := e.confidence

structure GraphCallPathInput (ι : Type) where
  graphId : Option ι
  fromId : Option ι
  toId : Option ι
  edgeTypes : Option (List String) := none
  confidenceMin : Option ℚ := none
  maxHops : Option ℚ := none

structure GraphCallPathResult (ι : Type) where
  found : Bool
  path : List (GraphCallPathStep ι)
  pathConfidence : Option ℚ
  hops : Nat
  nodesVisited : Nat
  truncated : Bool
  confidenceMin : ℚ
deriving DecidableEq

/-- Which edges a search follows. -/
structure EdgeFilter (ι : Type) where
  graphId : ι
  confidenceMin : ℚ
  edgeTypes : Option (List String)

variable {ι : Type} [LinearOrder ι]

def EdgeFilter.admits (q : EdgeFilter ι) (e : EdgeRow ι) : Bool :=
  e.graphId = q.graphId && e.status = .active && q.confidenceMin ≤ e.confidence &&
    (q.edgeTypes.all fun types => types.contains e.type)

/-! ## Queries -/

/-- The side that is expanded: its match column and its discover column. -/
inductive Side where
  | forward
  | backward

def Side.matchId : Side → EdgeRow ι → ι
  | .forward, e => e.srcId
  | .backward, e => e.dstId

def Side.discoverId : Side → EdgeRow ι → ι
  | .forward, e => e.dstId
  | .backward, e => e.srcId

/-- The first row of `ORDER BY confidence DESC, id ASC`. -/
def representative (rows : List (EdgeRow ι)) : Option (EdgeRow ι) :=
  rows.foldl (fun best e =>
    match best with
    | none => some e
    | some b =>
      if b.confidence < e.confidence ∨ (e.confidence = b.confidence ∧ e.id < b.id) then some e
      else some b) none

/-- The rows with `rn = 1` of each partition by the discover column. -/
def ranked (side : Side) (rows : List (EdgeRow ι)) : List (EdgeRow ι) :=
  (rows.map side.discoverId).dedup.filterMap fun d =>
    representative (rows.filter fun e => side.discoverId e = d)

/-- `buildCandidateSql*`. -/
def candidateRows (q : EdgeFilter ι) (side : Side) (edges : List (EdgeRow ι))
    (chunk otherChunk : List ι) : List (EdgeRow ι) :=
  ranked side (edges.filter fun e =>
    q.admits e && chunk.contains (side.matchId e) && otherChunk.contains (side.discoverId e))

/-- `buildNewNodeSql*`. -/
def newNodeRows (q : EdgeFilter ι) (side : Side) (edges : List (EdgeRow ι)) (chunk : List ι)
    (limit : Nat) : List (EdgeRow ι) :=
  ((ranked side (edges.filter fun e => q.admits e && chunk.contains (side.matchId e))).mergeSort
    fun a b => side.discoverId a ≤ side.discoverId b).take limit

/-! ## One level -/

structure VisitRecord (ι : Type) where
  edge : Option (GraphCallPathStep ι)
  via : Option ι
  depth : Nat

structure MeetingCandidate (ι : Type) where
  nodeId : ι
  combinedDepth : Nat
  edge : GraphCallPathStep ι
  via : ι

/-- `visited` is the side's map after the expansion. -/
structure ExpandSideResult (ι : Type) where
  visited : InsertMap ι (VisitRecord ι)
  next : List ι
  candidates : List (MeetingCandidate ι)
  truncated : Bool

/-- The slices of a loop `for (i = 0; i < l.length; i += size)`. -/
def slices {α : Type} (size : Nat) (l : List α) : List (List α) :=
  (List.range ((l.length + size - 1) / size)).map fun i => (l.drop (i * size)).take size

/-- What the edge tables, the filter and the expanded side are for one level. -/
structure Level (ι : Type) where
  arrange : List (EdgeRow ι) → List (EdgeRow ι)
  edges : List (EdgeRow ι)
  filter : EdgeFilter ι
  side : Side
  other : InsertMap ι (VisitRecord ι)
  depth : Nat

namespace Level

/-- Part (1) of a chunk: the edges into the other side. A row that is not of the other side does
    not occur. -/
def detect (l : Level ι) (chunk : List ι) : List (MeetingCandidate ι) :=
  (slices candidateKeyChunkSize (l.other.entries.map (·.1))).flatMap fun otherChunk =>
    (l.arrange (candidateRows l.filter l.side l.edges chunk otherChunk)).filterMap fun r =>
      (l.other.get (l.side.discoverId r)).map fun other =>
        { nodeId := l.side.discoverId r
          combinedDepth := l.depth + other.depth
          edge := r.step
          via := l.side.matchId r }

/-- Part (2) of a chunk: a row leads to a new vertex, unless one of the sides knows it. -/
def visit (l : Level ι) (s : InsertMap ι (VisitRecord ι) × List ι) (r : EdgeRow ι) :
    InsertMap ι (VisitRecord ι) × List ι :=
  let discoveredId := l.side.discoverId r
  if (s.1.get discoveredId).isSome ∨ (l.other.get discoveredId).isSome then s
  else
    (s.1.set discoveredId { edge := some r.step, via := some (l.side.matchId r), depth := l.depth },
      s.2 ++ [discoveredId])

/-- The loop of `expandOneSide` over the chunks of the frontier. -/
def expandChunks (l : Level ι) : List (List ι) → InsertMap ι (VisitRecord ι) → List ι →
    List (MeetingCandidate ι) → ExpandSideResult ι
  | [], visited, next, candidates => { visited, next, candidates, truncated := false }
  | chunk :: chunks, visited, next, candidates =>
    let candidates := candidates ++ l.detect chunk
    if candidates ≠ [] then expandChunks l chunks visited next candidates
    else if maxCallPathVisited ≤ visited.size + l.other.size then
      { visited, next, candidates, truncated := true }
    else
      let remaining := maxCallPathVisited - (visited.size + l.other.size)
      let rows := newNodeRows l.filter l.side l.edges chunk (remaining + 1)
      let s := (rows.take remaining).foldl l.visit (visited, next)
      if remaining < rows.length then
        { visited := s.1, next := s.2, candidates, truncated := true }
      else expandChunks l chunks s.1 s.2 candidates

def expandOneSide (l : Level ι) (frontier : List ι) (visited : InsertMap ι (VisitRecord ι)) :
    ExpandSideResult ι :=
  l.expandChunks (slices frontierChunkSize frontier) visited [] []

end Level

/-! ## The rounds -/

/-- One side of the search. -/
structure Half (ι : Type) where
  visited : InsertMap ι (VisitRecord ι)
  frontier : List ι
  depth : Nat

def Half.start (id : ι) : Half ι where
  visited := { entries := [(id, { edge := none, via := none, depth := 0 })] }
  frontier := [id]
  depth := 0

structure CallPathSearch (ι : Type) where
  forward : Half ι
  backward : Half ι
  forwardTurn : Bool
  meetingId : Option ι
  truncated : Bool

/-- The candidate of the least depth, the first of equals. -/
def bestCandidate (c : MeetingCandidate ι) (cs : List (MeetingCandidate ι)) : MeetingCandidate ι :=
  cs.foldl (fun best c => if c.combinedDepth < best.combinedDepth then c else best) c

/-- One level of one side; on a meeting the winner is noted on that side. -/
def Half.expand (arrange : List (EdgeRow ι) → List (EdgeRow ι)) (edges : List (EdgeRow ι))
    (q : EdgeFilter ι) (side : Side) (this other : Half ι) : Half ι × Option ι × Bool :=
  let depth := this.depth + 1
  let l : Level ι := { arrange, edges, filter := q, side, other := other.visited, depth }
  let r := l.expandOneSide this.frontier this.visited
  match r.candidates with
  | [] => ({ visited := r.visited, frontier := r.next, depth }, none, r.truncated)
  | c :: cs =>
    let best := bestCandidate c cs
    let visited :=
      if (r.visited.get best.nodeId).isSome then r.visited
      else r.visited.set best.nodeId { edge := some best.edge, via := some best.via, depth }
    ({ visited, frontier := r.next, depth }, some best.nodeId, false)

/-- The rounds that are left. -/
def CallPathSearch.rounds (arrange : List (EdgeRow ι) → List (EdgeRow ι)) (edges : List (EdgeRow ι))
    (q : EdgeFilter ι) : Nat → CallPathSearch ι → CallPathSearch ι
  | 0, s => s
  | n + 1, s =>
    let useForward :=
      if s.forwardTurn then s.forward.frontier ≠ []
      else s.forward.frontier ≠ [] ∧ s.backward.frontier = []
    if useForward then
      let (forward, meetingId, truncated) := s.forward.expand arrange edges q .forward s.backward
      let s := { s with forward, forwardTurn := !s.forwardTurn, meetingId, truncated }
      if meetingId.isSome ∨ truncated then s else s.rounds arrange edges q n
    else if s.backward.frontier ≠ [] then
      let (backward, meetingId, truncated) := s.backward.expand arrange edges q .backward s.forward
      let s := { s with backward, forwardTurn := !s.forwardTurn, meetingId, truncated }
      if meetingId.isSome ∨ truncated then s else s.rounds arrange edges q n
    else s

/-- The edges from a vertex to the root of its side, the nearest to the vertex first. `depth` is
    a bound for the loop. -/
def trace (visited : InsertMap ι (VisitRecord ι)) (depth : Nat) (cur : ι) :
    Except String (List (GraphCallPathStep ι)) :=
  match visited.get cur with
  | none => .error "TypeError"
  | some rec =>
    match rec.edge, rec.via with
    | some edge, some via =>
      match depth with
      | 0 => .error "the loop does not end"
      | depth + 1 =>
        match trace visited depth via with
        | .ok rest => .ok (edge :: rest)
        | .error e => .error e
    | _, _ => .ok []

/-! ## The search -/

def normalizeConfidenceMin (value : Option ℚ) : Except String ℚ :=
  let v := value.getD (3 / 4)
  if v < 0 ∨ 1 < v then .error "graph-query: confidenceMin must be within [0, 1]" else .ok v

def normalizeEdgeTypes (value : Option (List String)) : Option (List String) :=
  value.filter (· ≠ [])

/-- The limit that is in force. -/
def normalizeMaxHops (value : Option ℚ) : Except String Nat :=
  let raw := value.getD maxCallPathHops
  if raw < 1 then .error "graph-query: maxHops must be >= 1"
  else .ok (min raw.floor.toNat maxCallPathHops)

/-- The search between two different nodes. -/
def searchPath (arrange : List (EdgeRow ι) → List (EdgeRow ι)) (edges : List (EdgeRow ι))
    (q : EdgeFilter ι) (fromId toId : ι) (maxHops : Nat) :
    Except String (GraphCallPathResult ι) :=
  let s : CallPathSearch ι :=
    { forward := .start fromId, backward := .start toId, forwardTurn := true, meetingId := none,
      truncated := false }
  let s := s.rounds arrange edges q maxHops
  let nodesVisited := s.forward.visited.size + s.backward.visited.size
  match s.meetingId with
  | none =>
    .ok { found := false, path := [], pathConfidence := none, hops := 0, nodesVisited,
          truncated := s.truncated, confidenceMin := q.confidenceMin }
  | some meetingId =>
    match trace s.forward.visited s.forward.depth meetingId,
        trace s.backward.visited s.backward.depth meetingId with
    | .ok forwardHalf, .ok backwardHalf =>
      let path := forwardHalf.reverse ++ backwardHalf
      .ok { found := true, path, pathConfidence := some ((path.map (·.confidence)).foldl min 1),
            hops := path.length, nodesVisited, truncated := false,
            confidenceMin := q.confidenceMin }
    | .error e, _ | _, .error e => .error e

def graphCallPath (arrange : List (EdgeRow ι) → List (EdgeRow ι)) (edges : List (EdgeRow ι))
    (input : GraphCallPathInput ι) : Except String (GraphCallPathResult ι) :=
  match input.graphId, input.fromId, input.toId with
  | none, _, _ => .error "graph-query: graphId is required"
  | _, none, _ => .error "graph-query: fromId is required"
  | _, _, none => .error "graph-query: toId is required"
  | some graphId, some fromId, some toId =>
    match normalizeConfidenceMin input.confidenceMin with
    | .error e => .error e
    | .ok confidenceMin =>
      match normalizeMaxHops input.maxHops with
      | .error e => .error e
      | .ok maxHops =>
        if fromId = toId then
          .ok { found := true, path := [], pathConfidence := some 1, hops := 0, nodesVisited := 1,
                truncated := false, confidenceMin }
        else
          let q := { graphId, confidenceMin, edgeTypes := normalizeEdgeTypes input.edgeTypes }
          searchPath arrange edges q fromId toId maxHops

end WorkflowBoard.Ontology
