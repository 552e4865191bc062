import Evrp.Sdk.EventFormat

/-!
# From replay text to events

Replay text is either a Lua chunk or a recording, in which every line that is
not a recorded line is a Lua chunk of its own. What a chunk collects is a
parameter: it maps the text to an interpreter status and the collected events.
All times are 64-bit microseconds; at the end the timeline is shifted so that
it starts at zero.
-/

namespace Evrp

open Text Word

/-- Place an event at a time; the quotient truncates towards zero. -/
def setEventTimeUs (e : InputEvent) (tUs : ℤ) : InputEvent :=
  { e with timeSec := tUs.tdiv 1000000, timeUsec := tUs.tmod 1000000 }

/-- The event of a recorded line, without its time. -/
def recordFieldsToEvent (device : DeviceKind) (type code : ℕ) (value : ℤ) : InputEvent :=
  ⟨device, 0, 0, type, code, value⟩

/-- A line that only a recording contains. -/
def lineLooksLikeRecordingFormat (line : List Char) : Bool :=
  if line.isEmpty then false
  else
    let label := parseEventLabel line
    if label = "leading".toList ∧ (parseLeadingLine line).isSome then true
    else if label = "trailing".toList ∧ (parseTrailingLine line).isSome then true
    else decide (toKind label ≠ .unspecified) && (parseEventLine line).isSome

def textLooksLikeRecordingFormat (text : List Char) : Bool :=
  (getLines text).any lineLooksLikeRecordingFormat

/-- The earliest time of a non-empty list of events, and zero for the empty list. -/
def vectorMinTimeUs : List InputEvent → ℤ
  | [] => 0
  | e :: es => (e :: es).foldl (fun m x => min m x.timeUs) e.timeUs

/-- The latest time of a list of events, at least zero. -/
def vectorMaxTimeUs (v : List InputEvent) : ℤ := v.foldl (fun m e => max m e.timeUs) 0

/-- Append the events of a chunk so that the earliest stands at the given place. -/
def appendShiftedLuaBatch (out batch : List InputEvent) (placementUs : ℤ) : List InputEvent :=
  if batch.isEmpty then out
  else
    let shift := wrap 64 (placementUs - vectorMinTimeUs batch)
    out ++ batch.map fun e => setEventTimeUs e (wrap 64 (e.timeUs + shift))

/-- Shift a timeline so that its earliest event stands at zero. -/
def normalizeTimelineToZero (events : List InputEvent) : List InputEvent :=
  let tMin := vectorMinTimeUs events
  events.map fun e => setEventTimeUs e (wrap 64 (e.timeUs - tMin))

/-- The variables of the composer's loop. -/
structure ComposerState where
  events : List InputEvent
  leadingDeltaUs : ℤ
  fileAnchorUs : ℤ
  streamMaxUs : ℤ
  recordedTimeAdjustUs : ℤ
  hadLua : Bool
  sawFirstRecorded : Bool
  deriving DecidableEq, Repr

def ComposerState.initial : ComposerState := ⟨[], -1, 0, 0, 0, false, false⟩

/-- The bytes of a text up to the first terminator, as an interpreter receives them. -/
def cStr (text : List Char) : List Char := text.takeWhile (· ≠ '\x00')

section Compose

variable (lua : List Char → ℤ × List InputEvent)

/-- A line that is a Lua chunk: placed behind everything composed so far. -/
def composeLua (s : ComposerState) (line : List Char) : ℤ × ComposerState :=
  let chunk := lua (cStr line)
  if chunk.1 ≠ 0 then (chunk.1, s)
  else
    let events := appendShiftedLuaBatch s.events chunk.2 (max s.streamMaxUs s.fileAnchorUs)
    (0, { s with events := events, streamMaxUs := vectorMaxTimeUs events, hadLua := true })

/-- A recorded event line. The first one decides whether the leading time counts. -/
def composeRecorded (s : ComposerState) (device : DeviceKind) (line : EventLine) :
    ComposerState :=
  let adjustUs :=
    if !s.sawFirstRecorded && s.hadLua && decide (0 < s.leadingDeltaUs) then s.leadingDeltaUs
    else s.recordedTimeAdjustUs
  let e := setEventTimeUs (recordFieldsToEvent device line.type line.code line.value)
    (wrap 64 (line.deltaUs + adjustUs))
  { s with
    events := s.events ++ [e]
    fileAnchorUs := e.timeUs
    streamMaxUs := max s.streamMaxUs e.timeUs
    recordedTimeAdjustUs := adjustUs
    sawFirstRecorded := true }

/-- One line of a recording; a non-zero status ends the loop. -/
def composeLine (s : ComposerState) (line : List Char) : ℤ × ComposerState :=
  if line.isEmpty then (0, s)
  else
    let label := parseEventLabel line
    if label = "leading".toList then
      (0, { s with leadingDeltaUs := (parseLeadingLine line).getD s.leadingDeltaUs })
    else if label = "trailing".toList then (0, s)
    else if toKind label = .unspecified then composeLua lua s line
    else
      match parseEventLine line with
      | none => composeLua lua s line
      | some fields => (0, composeRecorded s (toKind label) fields)

def composeLines : ComposerState → List (List Char) → ℤ × ComposerState
  | s, [] => (0, s)
  | s, line :: lines =>
    let next := composeLine lua s line
    if next.1 ≠ 0 then next else composeLines next.2 lines

/-- The status of the composition and the composed events. -/
def toEvents (text : List Char) : ℤ × List InputEvent :=
  if !textLooksLikeRecordingFormat text then
    let chunk := lua (cStr text)
    if chunk.1 ≠ 0 then (chunk.1, []) else (0, normalizeTimelineToZero chunk.2)
  else
    let composed := composeLines lua .initial (getLines text)
    if composed.1 ≠ 0 then (composed.1, composed.2.events)
    else (0, normalizeTimelineToZero composed.2.events)

/-- A line that does not fail hands its state to the next. -/
theorem composeLines_cons {s t : ComposerState} {line : List Char}
    (h : composeLine lua s line = (0, t)) (lines : List (List Char)) :
    composeLines lua s (line :: lines) = composeLines lua t lines := by
  rw [composeLines, h]
  exact if_neg (not_not.mpr rfl)

end Compose

theorem setEventTimeUs_timeUs (e : InputEvent) {tUs : ℤ} (h : Fits64 tUs) :
    (setEventTimeUs e tUs).timeUs = tUs := by
  have hsum : tUs.tdiv 1000000 * 1000000 + tUs.tmod 1000000 = tUs :=
    Int.tdiv_mul_add_tmod tUs 1000000
  rw [InputEvent.timeUs, setEventTimeUs, wrap_wrap_add, hsum, wrap64_of_fits h]

/-- At a non-negative time the split is the Euclidean one. -/
theorem setEventTimeUs_of_nonneg (e : InputEvent) {tUs : ℤ} (h : 0 ≤ tUs) :
    setEventTimeUs e tUs = { e with timeSec := tUs / 1000000, timeUsec := tUs % 1000000 } := by
  rw [setEventTimeUs, Int.tdiv_eq_ediv_of_nonneg h, Int.tmod_eq_emod_of_nonneg h]

@[simp] theorem setEventTimeUs_setEventTimeUs (e : InputEvent) (t u : ℤ) :
    setEventTimeUs (setEventTimeUs e t) u = setEventTimeUs e u := rfl

private theorem foldl_min_spec (es : List InputEvent) (m : ℤ) :
    es.foldl (fun m x => min m x.timeUs) m ≤ m ∧
      (∀ e ∈ es, es.foldl (fun m x => min m x.timeUs) m ≤ e.timeUs) ∧
      (es.foldl (fun m x => min m x.timeUs) m = m ∨
        ∃ e ∈ es, es.foldl (fun m x => min m x.timeUs) m = e.timeUs) := by
  induction es generalizing m with
  | nil => exact ⟨le_refl _, nofun, Or.inl rfl⟩
  | cons a es ih =>
    obtain ⟨hle, hall, hattained⟩ := ih (min m a.timeUs)
    rw [List.foldl_cons]
    refine ⟨hle.trans (min_le_left _ _), ?_, ?_⟩
    · intro e he
      rcases List.mem_cons.mp he with rfl | he
      · exact hle.trans (min_le_right _ _)
      · exact hall e he
    · rcases hattained with h | ⟨e, he, h⟩
      · rcases min_choice m a.timeUs with hmin | hmin
        · exact Or.inl (h.trans hmin)
        · exact Or.inr ⟨a, List.mem_cons_self .., h.trans hmin⟩
      · exact Or.inr ⟨e, List.mem_cons_of_mem _ he, h⟩

/-- The minimum of a non-empty timeline is the time of one of its events. -/
theorem vectorMinTimeUs_spec {events : List InputEvent} (hne : events ≠ []) :
    ∃ e ∈ events, vectorMinTimeUs events = e.timeUs ∧ ∀ x ∈ events, e.timeUs ≤ x.timeUs := by
  cases events with
  | nil => exact absurd rfl hne
  | cons a es =>
    obtain ⟨-, hall, hattained⟩ := foldl_min_spec (a :: es) a.timeUs
    rcases hattained with h | ⟨e, he, h⟩
    · rw [h] at hall
      exact ⟨a, List.mem_cons_self .., h, hall⟩
    · rw [h] at hall
      exact ⟨e, he, h, hall⟩

end Evrp
