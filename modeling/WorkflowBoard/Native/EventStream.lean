import WorkflowBoard.Native.CodeUnits

/-!
# The event stream of the agent manager (`agent-manager/src/lib/event-stream.ts`)

The server sends its events as lines of a stream. A chunk may end anywhere, so the parser keeps the
start of a line, and the fields of the event it is in, from one chunk to the next.
-/

namespace WorkflowBoard.AgentManager

structure SseParseState where
  buffer : CodeUnits
  eventType : CodeUnits
  currentId : CodeUnits
  lastEventId : CodeUnits
deriving DecidableEq

structure SseEvent where
  eventType : CodeUnits
  data : CodeUnits
deriving DecidableEq

def newSseParseState (lastEventId : CodeUnits := []) : SseParseState where
  buffer := []
  eventType := []
  currentId := lastEventId
  lastEventId := lastEventId

/-- The code unit that ends a line. -/
def newline : UInt16 := 10

/-- `s.replace(/^ /, '')`. -/
def dropBlank : CodeUnits → CodeUnits
  | 0x20 :: s => s
  | s => s

/-- The body of the loop: a complete line, and the event it completes. -/
def sseLine (state : SseParseState) (line : CodeUnits) : SseParseState × List SseEvent :=
  if line.startsWith (units "event: ") then
    ({ state with eventType := CodeUnits.trim (line.drop 7) }, [])
  else if line.startsWith (units "id:") then
    ({ state with currentId := dropBlank (line.drop 3) }, [])
  else if line.startsWith (units "data: ") then
    let data := CodeUnits.trim (line.drop 6)
    if data ≠ [] then
      ({ state with lastEventId := state.currentId, eventType := [] },
        [{ eventType := state.eventType, data }])
    else ({ state with eventType := [] }, [])
  else if line = [] then ({ state with eventType := [] }, [])
  else (state, [])

/-- The loop over the complete lines. -/
def sseLines (state : SseParseState) : List CodeUnits → SseParseState × List SseEvent
  | [] => (state, [])
  | line :: lines =>
    let (state, out) := sseLine state line
    let (state, rest) := sseLines state lines
    (state, out ++ rest)

def feedSse (state : SseParseState) (chunk : CodeUnits) : SseParseState × List SseEvent :=
  let lines := (state.buffer ++ chunk).splitOn newline
  sseLines { state with buffer := lines.getLast?.getD [] } lines.dropLast

/-- The chunks of a stream, one after the other. -/
def feedChunks (state : SseParseState) : List CodeUnits → SseParseState × List SseEvent
  | [] => (state, [])
  | chunk :: chunks =>
    let (state, out) := feedSse state chunk
    let (state, rest) := feedChunks state chunks
    (state, out ++ rest)

end WorkflowBoard.AgentManager
