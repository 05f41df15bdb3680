import WorkflowBoard.ForStd.Words
import WorkflowBoard.Native.EventStream

/-!
# Frames of an event stream

However a stream of frames is cut into chunks, the parser gives the event of each frame, once and
in order (`feedChunks_frames`). A line is handled when its end has come, and only its text and the
fields kept so far decide what it does; so the chunks show in the buffer alone (`feedChunks_lines`).
-/

namespace WorkflowBoard.AgentManager

open CodeUnits (trim)

/-! ## Lines -/

section Lines

variable {state : SseParseState} {lines rest : List CodeUnits}

theorem sseLine_buffer (state : SseParseState) (b line : CodeUnits) :
    sseLine { state with buffer := b } line =
      ({ (sseLine state line).1 with buffer := b }, (sseLine state line).2) := by
  unfold sseLine
  dsimp only
  split_ifs <;> rfl

theorem sseLines_buffer (state : SseParseState) (b : CodeUnits) (lines : List CodeUnits) :
    sseLines { state with buffer := b } lines =
      ({ (sseLines state lines).1 with buffer := b }, (sseLines state lines).2) := by
  induction lines generalizing state with
  | nil => rfl
  | cons line lines ih => simp only [sseLines, sseLine_buffer, ih]

theorem sseLines_append (state : SseParseState) (lines rest : List CodeUnits) :
    sseLines state (lines ++ rest) = ((sseLines (sseLines state lines).1 rest).1,
      (sseLines state lines).2 ++ (sseLines (sseLines state lines).1 rest).2) := by
  induction lines generalizing state with
  | nil => simp [sseLines]
  | cons line lines ih => simp [sseLines, ih]

/-- A chunk handles the lines that it completes, and keeps what is behind them. -/
theorem feedSse_lines {chunk rest : CodeUnits}
    (h : state.buffer ++ chunk = joinLines newline lines ++ rest)
    (hlines : ∀ line ∈ lines, newline ∉ line) (hrest : newline ∉ rest) :
    feedSse state chunk = sseLines { state with buffer := rest } lines := by
  unfold feedSse
  rw [h, splitOn_joinLines hlines, List.splitOn_eq_singleton hrest]
  simp

theorem feedChunks_lines {chunks : List CodeUnits} {rest : CodeUnits}
    (hbuffer : newline ∉ state.buffer)
    (h : state.buffer ++ chunks.flatten = joinLines newline lines ++ rest)
    (hlines : ∀ line ∈ lines, newline ∉ line) (hrest : newline ∉ rest) :
    feedChunks state chunks = sseLines { state with buffer := rest } lines := by
  induction chunks generalizing state lines with
  | nil =>
    -- no chunk, so no line is completed
    have hnone : joinLines newline [] ++ state.buffer = joinLines newline lines ++ rest := by
      rw [← h, List.flatten_nil, List.append_nil]
      rfl
    obtain ⟨rfl, rfl⟩ := joinLines_inj hnone (by simp) hlines hbuffer hrest
    rfl
  | cons chunk chunks ih =>
    obtain ⟨done, kept, hchunk, hdone, hkept⟩ := exists_lines newline (state.buffer ++ chunk)
    obtain ⟨later, rest', hlater, hplain, hrest'⟩ := exists_lines newline (kept ++ chunks.flatten)
    have hall : joinLines newline (done ++ later) ++ rest' = joinLines newline lines ++ rest := by
      rw [← h, joinLines_append, List.append_assoc, ← hlater, List.flatten_cons,
        ← List.append_assoc, ← hchunk, List.append_assoc]
    have hboth : ∀ line ∈ done ++ later, newline ∉ line :=
      List.forall_mem_append.mpr ⟨hdone, hplain⟩
    obtain ⟨rfl, rfl⟩ := joinLines_inj hall hboth hlines hrest' hrest
    have hstep : (sseLines { state with buffer := kept } done).1.buffer = kept := by
      rw [sseLines_buffer]
    have hlast : feedChunks (sseLines { state with buffer := kept } done).1 chunks = _ :=
      ih (by rwa [hstep]) (by rw [hstep]; exact hlater) hplain
    simp only [feedChunks, feedSse_lines hchunk hdone hkept]
    rw [hlast]
    simp only [sseLines_append, sseLines_buffer]

end Lines

/-! ## Frames -/

/-- A frame: its fields are single lines, its type has no white space around it, its data is not
    blank. -/
structure SseFrame where
  eventType : CodeUnits
  id : Option CodeUnits
  data : CodeUnits
  eventType_line : newline ∉ eventType
  eventType_trimmed : trim eventType = eventType
  id_line : ∀ i ∈ id, newline ∉ i
  data_line : newline ∉ data
  data_notBlank : trim data ≠ []

namespace SseFrame

/-- The lines of a frame; the last one is blank. -/
def lines (f : SseFrame) : List CodeUnits :=
  [units "event: " ++ f.eventType] ++ f.id.toList.map (units "id: " ++ ·) ++
    [units "data: " ++ f.data, []]

/-- The text of some frames. -/
def encode (frames : List SseFrame) : CodeUnits :=
  joinLines newline (frames.flatMap lines)

def event (f : SseFrame) : SseEvent := ⟨f.eventType, trim f.data⟩

/-- The id that holds behind some frames: that of the last one which gives one. -/
def idInForce (currentId : CodeUnits) (frames : List SseFrame) : CodeUnits :=
  frames.foldl (fun id f => f.id.getD id) currentId

theorem lines_plain (f : SseFrame) : ∀ line ∈ f.lines, newline ∉ line := by
  have hevent : newline ∉ units "event: " := by decide
  have hid : newline ∉ units "id: " := by decide
  have hdata : newline ∉ units "data: " := by decide
  intro line hline
  simp only [lines, List.mem_append, List.mem_cons, List.mem_map, Option.mem_toList] at hline
  obtain ((rfl | hnil) | ⟨i, hi, rfl⟩) | rfl | rfl | hnil := hline
  · simp [hevent, f.eventType_line]
  · cases hnil
  · simp [hid, f.id_line i hi]
  · simp [hdata, f.data_line]
  · simp
  · cases hnil

end SseFrame

/-! ## The lines of a frame -/

section

variable (state : SseParseState)
include state

theorem sseLine_event (t : CodeUnits) :
    sseLine state (units "event: " ++ t) = ({ state with eventType := trim t }, []) := by
  have htext : units "event: " = [101, 118, 101, 110, 116, 58, 32] := by decide
  simp [sseLine, CodeUnits.startsWith, htext, List.isPrefixOf]

theorem sseLine_id (i : CodeUnits) :
    sseLine state (units "id: " ++ i) = ({ state with currentId := i }, []) := by
  have hevent : units "event: " = [101, 118, 101, 110, 116, 58, 32] := by decide
  have hid : units "id: " = [105, 100, 58, 32] := by decide
  have hhead : units "id:" = [105, 100, 58] := by decide
  simp [sseLine, CodeUnits.startsWith, hevent, hid, hhead, List.isPrefixOf, dropBlank]

theorem sseLine_data {d : CodeUnits} (hd : trim d ≠ []) :
    sseLine state (units "data: " ++ d) =
      ({ state with lastEventId := state.currentId, eventType := [] },
        [⟨state.eventType, trim d⟩]) := by
  have hevent : units "event: " = [101, 118, 101, 110, 116, 58, 32] := by decide
  have hhead : units "id:" = [105, 100, 58] := by decide
  have hdata : units "data: " = [100, 97, 116, 97, 58, 32] := by decide
  simp [sseLine, CodeUnits.startsWith, hevent, hhead, hdata, List.isPrefixOf, hd]

theorem sseLine_nil :
    sseLine state [] = ({ state with eventType := [] }, []) := by
  have hevent : units "event: " = [101, 118, 101, 110, 116, 58, 32] := by decide
  have hhead : units "id:" = [105, 100, 58] := by decide
  have hdata : units "data: " = [100, 97, 116, 97, 58, 32] := by decide
  simp [sseLine, CodeUnits.startsWith, hevent, hhead, hdata]

/-- A frame gives its event, and leaves the registers for the next. -/
theorem sseLines_frame (f : SseFrame) :
    sseLines state f.lines = ({ state with
      eventType := []
      currentId := f.id.getD state.currentId
      lastEventId := f.id.getD state.currentId }, [f.event]) := by
  cases hid : f.id with
  | none =>
    simp [SseFrame.lines, hid, sseLines, sseLine_event, sseLine_data _ f.data_notBlank, sseLine_nil,
      f.eventType_trimmed, SseFrame.event]
  | some i =>
    simp [SseFrame.lines, hid, sseLines, sseLine_event, sseLine_id, sseLine_data _ f.data_notBlank,
      sseLine_nil, f.eventType_trimmed, SseFrame.event]

theorem sseLines_frames (frames : List SseFrame)
    (hid : state.lastEventId = state.currentId) (htype : state.eventType = []) :
    sseLines state (frames.flatMap SseFrame.lines) = ({ state with
      currentId := SseFrame.idInForce state.currentId frames
      lastEventId := SseFrame.idInForce state.currentId frames }, frames.map SseFrame.event) := by
  induction frames generalizing state with
  | nil =>
    obtain ⟨buffer, eventType, currentId, lastEventId⟩ := state
    obtain rfl : lastEventId = currentId := hid
    rfl
  | cons f frames ih =>
    rw [List.flatMap_cons, sseLines_append, sseLines_frame, ih _ rfl rfl]
    simp [SseFrame.idInForce, htype]

end

/-- However the text of some frames is cut into chunks, the parser gives the event of each frame in
    order, keeps nothing, and the last id is the one in force at the last frame. -/
theorem feedChunks_frames (lastEventId : CodeUnits) (frames : List SseFrame)
    (chunks : List CodeUnits) (h : chunks.flatten = SseFrame.encode frames) :
    (feedChunks (newSseParseState lastEventId) chunks).2 = frames.map SseFrame.event ∧
      (feedChunks (newSseParseState lastEventId) chunks).1 =
        newSseParseState (SseFrame.idInForce lastEventId frames) := by
  have hplain : ∀ line ∈ frames.flatMap SseFrame.lines, newline ∉ line := by
    intro line hline
    obtain ⟨f, -, hf⟩ := List.mem_flatMap.mp hline
    exact f.lines_plain line hf
  have hall : (newSseParseState lastEventId).buffer ++ chunks.flatten =
      joinLines newline (frames.flatMap SseFrame.lines) ++ [] := by
    simp [newSseParseState, h, SseFrame.encode]
  rw [feedChunks_lines (by simp [newSseParseState]) hall hplain (by simp),
    sseLines_frames _ _ rfl rfl]
  exact ⟨rfl, rfl⟩

def twoFrames : List SseFrame :=
  [⟨units "a", some (units "7"), units "x y ", by decide, by decide, by decide, by decide,
      by decide⟩,
    ⟨units "b", none, units "z", by decide, by decide, by decide, by decide, by decide⟩]

/-- Two frames, cut inside a field name and between the two line ends. -/
theorem feedChunks_frames_two :
    feedChunks (newSseParseState (units "5")) [units "event: a\ni", units "d: 7\ndata: x y \n",
      units "\nevent: b\ndata: z\n", units "\n"] =
      (newSseParseState (units "7"), [⟨units "a", units "x y"⟩, ⟨units "b", units "z"⟩]) := by
  obtain ⟨hevents, hstate⟩ := feedChunks_frames (units "5") twoFrames [units "event: a\ni",
    units "d: 7\ndata: x y \n", units "\nevent: b\ndata: z\n", units "\n"] (by decide)
  refine Prod.ext (hstate.trans ?_) (hevents.trans ?_)
  · decide
  · decide

end WorkflowBoard.AgentManager
