import Evrp.Sdk.EventFormat
import Evrp.Sdk.EnhancedFileSystem

/-!
# The recorder

`Record.run` polls a listener, passes keyboard events through the Ctrl+C filter
and writes one line for every event that comes out. The recorder's world is
explicit: the outcome of each start-up step, the successive readings of the
clock, and the answers of the write calls. One entry of the poll list is one
iteration of the loop, `none` for a wait without input; the list ends where one
of the three stop requests is seen. Two fields of the state record history for
the specifications: the events read and the arguments of `writeEventLine`.
-/

namespace Evrp

open Word

/-- A clock reading. -/
structure Timeval where
  sec : ℤ
  usec : ℤ
  deriving DecidableEq, Repr

/-- A clock reading in microseconds. -/
def Timeval.us (t : Timeval) : ℤ := wrap 64 (wrap 64 (t.sec * 1000000) + t.usec)

/-- Everything the recorder depends on besides its input events. -/
structure RecordEnv where
  hasListener : Bool
  hasFileSystem : Bool
  startListening : Bool
  openFd : Bool
  gettimeofday : ℕ → Timeval
  answers : List WriteAnswer
  flushFd : Bool

/-- The recorder's variables, with the history of reads and of event lines. -/
structure RecordState where
  baselineUs : ℤ
  lastClientEventUs : ℤ
  writeOk : Bool
  clockReads : ℕ
  file : OutputFile
  filter : KeyboardFilterState
  readEvents : List InputEvent
  eventLines : List InputEvent
  deriving DecidableEq, Repr

/-- The state in front of the loop; the session start was the first clock reading. -/
def RecordState.initial (env : RecordEnv) : RecordState :=
  ⟨-1, -1, true, 1, ⟨[], env.answers⟩, .initial, [], []⟩

namespace Record

/-- Write one terminated line unless an earlier write failed. -/
def writeLine (s : RecordState) (line : List Char) : RecordState :=
  if s.writeOk then
    let body := writeOutput s.file line
    if body.1 then
      let terminator := writeOutput body.2 ['\n']
      { s with file := terminator.2, writeOk := terminator.1 }
    else { s with file := body.2, writeOk := false }
  else s

/-- The first event fixes the baseline and is preceded by the time since the start. -/
def writeLeading (env : RecordEnv) (s : RecordState) (currentUs : ℤ) : RecordState :=
  if s.baselineUs < 0 then
    let leadingUs := wrap 64 ((env.gettimeofday s.clockReads).us - (env.gettimeofday 0).us)
    let started := { s with baselineUs := currentUs, clockReads := s.clockReads + 1 }
    if 0 < leadingUs then writeLine started (formatLeadingLine leadingUs) else started
  else s

/-- The line of an event whose baseline is known, and the clock reading after it. -/
def writeDelta (env : RecordEnv) (s : RecordState) (ine : InputEvent) : RecordState :=
  let deltaUs := wrap 64 (ine.timeUs - s.baselineUs)
  let written := writeLine s (formatEventLine ine.device ine.toEvent deltaUs)
  { written with
    lastClientEventUs := (env.gettimeofday written.clockReads).us
    clockReads := written.clockReads + 1 }

/-- Write the line of one event. -/
def writeEventLine (env : RecordEnv) (s : RecordState) (ine : InputEvent) : RecordState :=
  let called := { s with eventLines := s.eventLines ++ [ine] }
  if !called.writeOk then called
  else
    let started := writeLeading env called ine.timeUs
    if !started.writeOk then started else writeDelta env started ine

/-- Write the lines of several events; a failed write ends the loop. -/
def writeEventLines (env : RecordEnv) : RecordState → List InputEvent → RecordState
  | s, [] => s
  | s, ine :: rest =>
    let written := writeEventLine env s ine
    if written.writeOk then writeEventLines env written rest else written

/-- One event of a batch: keyboard events go through the filter, unless it is off. -/
def recordEvent (mode : KeyboardCtrlCFilterMode) (env : RecordEnv) (s : RecordState)
    (ine : InputEvent) : RecordState :=
  if ine.device = .keyboard ∧ mode ≠ .off then
    let filtered := processKeyboardEventWithCtrlFilter ine.toEvent mode s.filter
    writeEventLines env { s with filter := filtered.1 }
      (filtered.2.map (Event.toInputEvent .keyboard))
  else writeEventLine env s ine

/-- The events of one batch; a failed write ends the loop. -/
def recordBatch (mode : KeyboardCtrlCFilterMode) (env : RecordEnv) :
    RecordState → List InputEvent → RecordState
  | s, [] => s
  | s, ine :: rest =>
    let recorded := recordEvent mode env s ine
    if recorded.writeOk then recordBatch mode env recorded rest else recorded

/-- The polling loop; a failed write ends it before the next poll. -/
def recordLoop (mode : KeyboardCtrlCFilterMode) (env : RecordEnv) :
    RecordState → List (Option (List InputEvent)) → RecordState
  | s, [] => s
  | s, none :: polls => if s.writeOk then recordLoop mode env s polls else s
  | s, some batch :: polls =>
    if s.writeOk then
      let read := { s with readEvents := s.readEvents ++ batch }
      recordLoop mode env (recordBatch mode env read batch) polls
    else s

/-- The final flush of the filter. -/
def recordFlush (mode : KeyboardCtrlCFilterMode) (env : RecordEnv) (s : RecordState) :
    RecordState :=
  if s.writeOk = true ∧ mode ≠ .off then
    let flushed := flushKeyboardEventFilter mode s.filter
    writeEventLines env { s with filter := flushed.1 }
      (flushed.2.map (Event.toInputEvent .keyboard))
  else s

/-- The time between the last event and the end of the session. -/
def writeTrailing (env : RecordEnv) (s : RecordState) : RecordState :=
  if s.writeOk = true ∧ 0 ≤ s.lastClientEventUs then
    let trailingUs := wrap 64 ((env.gettimeofday s.clockReads).us - s.lastClientEventUs)
    let read := { s with clockReads := s.clockReads + 1 }
    if 0 < trailingUs then writeLine read (formatTrailingLine trailingUs) else read
  else s

/-- The state at the end of a session that could be started. -/
def session (mode : KeyboardCtrlCFilterMode) (env : RecordEnv)
    (polls : List (Option (List InputEvent))) : RecordState :=
  writeTrailing env (recordFlush mode env (recordLoop mode env (.initial env) polls))

/-- The exit code of the recorder and its final state. -/
def run (mode : KeyboardCtrlCFilterMode) (env : RecordEnv)
    (polls : List (Option (List InputEvent))) : ℤ × RecordState :=
  if !env.hasListener then (1, .initial env)
  else if !env.hasFileSystem then (1, .initial env)
  else if !env.startListening then (1, .initial env)
  else if !env.openFd then (1, .initial env)
  else
    let s := session mode env polls
    if !s.writeOk then (1, s)
    else if !env.flushFd then (1, s)
    else (0, s)

/-- A world in which every step of a session succeeds. -/
def reliableEnv (gettimeofday : ℕ → Timeval) : RecordEnv :=
  ⟨true, true, true, true, gettimeofday, [], true⟩

/-- A run ends in its initial state or at the end of its session. -/
theorem run_state (mode : KeyboardCtrlCFilterMode) (env : RecordEnv)
    (polls : List (Option (List InputEvent))) :
    (run mode env polls).2 = .initial env ∨ (run mode env polls).2 = session mode env polls := by
  simp only [run]
  split_ifs
  all_goals first | exact Or.inl rfl | exact Or.inr rfl

theorem run_reliableEnv (mode : KeyboardCtrlCFilterMode) (gettimeofday : ℕ → Timeval)
    (polls : List (Option (List InputEvent))) :
    (run mode (reliableEnv gettimeofday) polls).2 =
      session mode (reliableEnv gettimeofday) polls := by
  simp only [run, reliableEnv, Bool.not_true, Bool.false_eq_true, if_false]
  split_ifs <;> rfl

/-- Only a session in which every write succeeded is reported as successful. -/
theorem run_code_zero {mode : KeyboardCtrlCFilterMode} {env : RecordEnv}
    {polls : List (Option (List InputEvent))} (h : (run mode env polls).1 = 0) :
    (run mode env polls).2 = session mode env polls ∧
      (session mode env polls).writeOk = true := by
  simp only [run] at h ⊢
  split_ifs at h ⊢ with _ _ _ _ hok
  any_goals exact absurd h one_ne_zero
  exact ⟨rfl, by simpa only [Bool.not_eq_true', Bool.not_eq_false] using hok⟩

/-- Writing a line changes the file and the success flag only. -/
theorem writeLine_frame (s : RecordState) (line : List Char) :
    ∃ file ok, writeLine s line = { s with file := file, writeOk := ok } := by
  unfold writeLine
  split
  · simp only
    split
    · exact ⟨_, _, rfl⟩
    · exact ⟨_, _, rfl⟩
  · exact ⟨s.file, s.writeOk, rfl⟩

theorem writeLine_writeOk {s : RecordState} {line : List Char}
    (h : (writeLine s line).writeOk = true) : s.writeOk = true := by
  unfold writeLine at h
  split at h
  · assumption
  · exact h

/-- A line that was written stands at the end of the text. -/
theorem writeLine_text {s : RecordState} {line : List Char}
    (h : (writeLine s line).writeOk = true) :
    (writeLine s line).file.text = s.file.text ++ (line ++ ['\n']) := by
  have hok := writeLine_writeOk h
  rw [writeLine, if_pos hok] at h ⊢
  simp only at h ⊢
  split at h
  · rename_i hbody
    rw [if_pos hbody, writeOutput_text h, writeOutput_text hbody, List.append_assoc]
  · exact Bool.noConfusion h

theorem writeLeading_frame (env : RecordEnv) (s : RecordState) (currentUs : ℤ) :
    (writeLeading env s currentUs).filter = s.filter ∧
      (writeLeading env s currentUs).readEvents = s.readEvents ∧
      (writeLeading env s currentUs).eventLines = s.eventLines := by
  unfold writeLeading
  split
  · simp only
    split
    · obtain ⟨file, ok, hline⟩ := writeLine_frame _ _
      rw [hline]
      exact ⟨rfl, rfl, rfl⟩
    · exact ⟨rfl, rfl, rfl⟩
  · exact ⟨rfl, rfl, rfl⟩

theorem writeDelta_frame (env : RecordEnv) (s : RecordState) (ine : InputEvent) :
    (writeDelta env s ine).filter = s.filter ∧
      (writeDelta env s ine).readEvents = s.readEvents ∧
      (writeDelta env s ine).eventLines = s.eventLines := by
  obtain ⟨file, ok, hline⟩ := writeLine_frame s
    (formatEventLine ine.device ine.toEvent (wrap 64 (ine.timeUs - s.baselineUs)))
  rw [writeDelta, hline]
  exact ⟨rfl, rfl, rfl⟩

/-- A call adds its argument to the history and leaves the filter and the reads alone. -/
theorem writeEventLine_frame (env : RecordEnv) (s : RecordState) (ine : InputEvent) :
    (writeEventLine env s ine).filter = s.filter ∧
      (writeEventLine env s ine).readEvents = s.readEvents ∧
      (writeEventLine env s ine).eventLines = s.eventLines ++ [ine] := by
  have hlead := writeLeading_frame env { s with eventLines := s.eventLines ++ [ine] } ine.timeUs
  unfold writeEventLine
  simp only
  split
  · exact ⟨rfl, rfl, rfl⟩
  · split
    · exact hlead
    · obtain ⟨hfilter, hreads, hlines⟩ := writeDelta_frame env
        (writeLeading env { s with eventLines := s.eventLines ++ [ine] } ine.timeUs) ine
      exact ⟨hfilter.trans hlead.1, hreads.trans hlead.2.1, hlines.trans hlead.2.2⟩

/-- The loop calls `writeEventLine` on a beginning of its list, on all of it if no write
fails. -/
theorem writeEventLines_frame (env : RecordEnv) (s : RecordState) (es : List InputEvent) :
    (writeEventLines env s es).filter = s.filter ∧
      (writeEventLines env s es).readEvents = s.readEvents ∧
      ∃ done, done <+: es ∧ (writeEventLines env s es).eventLines = s.eventLines ++ done ∧
        ((writeEventLines env s es).writeOk = true → done = es) := by
  induction es generalizing s with
  | nil =>
    exact ⟨rfl, rfl, [], List.prefix_rfl, (List.append_nil _).symm, fun _ => rfl⟩
  | cons ine rest ih =>
    obtain ⟨hfilter, hreads, hlines⟩ := writeEventLine_frame env s ine
    rw [writeEventLines]
    split
    · obtain ⟨ihf, ihr, done, hdone, hevents, hall⟩ := ih (writeEventLine env s ine)
      refine ⟨ihf.trans hfilter, ihr.trans hreads, ine :: done,
        (List.prefix_cons_inj ine).mpr hdone, ?_, fun hok => congrArg _ (hall hok)⟩
      rw [hevents, hlines, List.append_assoc]
      rfl
    · rename_i hfail
      exact ⟨hfilter, hreads, [ine], (List.prefix_cons_inj ine).mpr List.nil_prefix, hlines,
        fun hok => absurd hok hfail⟩

section Invariants

variable {P : RecordState → Prop} {env : RecordEnv}
  (hfilter : ∀ s f, P s → P { s with filter := f })
  (hread : ∀ s es, P s → P { s with readEvents := es })
  (hline : ∀ s ine, s.writeOk = true → P s → P (writeEventLine env s ine))

include hline in
theorem writeEventLines_invariant {s : RecordState} (es : List InputEvent)
    (hok : s.writeOk = true) (hs : P s) : P (writeEventLines env s es) := by
  induction es generalizing s with
  | nil => exact hs
  | cons ine rest ih =>
    have hwritten := hline s ine hok hs
    rw [writeEventLines]
    split
    · rename_i hok'
      exact ih hok' hwritten
    · exact hwritten

include hfilter hline in
theorem recordEvent_invariant {mode : KeyboardCtrlCFilterMode} {s : RecordState}
    (ine : InputEvent) (hok : s.writeOk = true) (hs : P s) : P (recordEvent mode env s ine) := by
  unfold recordEvent
  split
  · exact writeEventLines_invariant hline _ hok (hfilter s _ hs)
  · exact hline s ine hok hs

include hfilter hline in
theorem recordBatch_invariant {mode : KeyboardCtrlCFilterMode} {s : RecordState}
    (batch : List InputEvent) (hok : s.writeOk = true) (hs : P s) :
    P (recordBatch mode env s batch) := by
  induction batch generalizing s with
  | nil => exact hs
  | cons ine rest ih =>
    have hrecorded : P (recordEvent mode env s ine) :=
      recordEvent_invariant hfilter hline ine hok hs
    rw [recordBatch]
    split
    · rename_i hok'
      exact ih hok' hrecorded
    · exact hrecorded

include hfilter hread hline in
theorem recordLoop_invariant {mode : KeyboardCtrlCFilterMode} {s : RecordState}
    (polls : List (Option (List InputEvent))) (hs : P s) : P (recordLoop mode env s polls) := by
  induction polls generalizing s with
  | nil => exact hs
  | cons poll polls ih =>
    cases poll with
    | none =>
      rw [recordLoop]
      split
      · exact ih hs
      · exact hs
    | some batch =>
      rw [recordLoop]
      split
      · rename_i hok
        exact ih (recordBatch_invariant hfilter hline batch hok (hread s _ hs))
      · exact hs

include hfilter hread hline in
/-- What every call of `writeEventLine` keeps, and what does not depend on the filter and
the reads, holds when the last event line has been written. -/
theorem recordFlush_invariant {mode : KeyboardCtrlCFilterMode}
    (polls : List (Option (List InputEvent))) (hs : P (.initial env)) :
    P (recordFlush mode env (recordLoop mode env (.initial env) polls)) := by
  have hloop : P (recordLoop mode env (.initial env) polls) :=
    recordLoop_invariant hfilter hread hline polls hs
  unfold recordFlush
  split
  · rename_i h
    exact writeEventLines_invariant hline _ h.1 (hfilter _ _ hloop)
  · exact hloop

end Invariants

/-- No write has failed and none will. -/
def Flawless (s : RecordState) : Prop := s.writeOk = true ∧ s.file.answers = []

theorem writeLine_flawless {s : RecordState} (h : Flawless s) (line : List Char) :
    Flawless (writeLine s line) := by
  obtain ⟨hok, hanswers⟩ := h
  obtain ⟨hbody, hleft⟩ := writeOutput_of_answers_nil hanswers line
  rw [writeLine, if_pos hok]
  simp only [hbody, if_true]
  exact writeOutput_of_answers_nil hleft ['\n']

theorem writeEventLine_flawless {env : RecordEnv} {s : RecordState} (h : Flawless s)
    (ine : InputEvent) : Flawless (writeEventLine env s ine) := by
  have hlead : Flawless
      (writeLeading env { s with eventLines := s.eventLines ++ [ine] } ine.timeUs) := by
    unfold writeLeading
    split
    · simp only
      split
      · refine writeLine_flawless ?_ _
        exact ⟨h.1, h.2⟩
      · exact ⟨h.1, h.2⟩
    · exact ⟨h.1, h.2⟩
  unfold writeEventLine
  simp only
  split
  · exact ⟨h.1, h.2⟩
  · split
    · exact hlead
    · exact writeLine_flawless hlead _

/-- Nothing fails in a reliable world. -/
theorem run_code_reliableEnv (mode : KeyboardCtrlCFilterMode) (gettimeofday : ℕ → Timeval)
    (polls : List (Option (List InputEvent))) :
    (run mode (reliableEnv gettimeofday) polls).1 = 0 := by
  have hflush : Flawless (recordFlush mode (reliableEnv gettimeofday)
      (recordLoop mode (reliableEnv gettimeofday) (.initial (reliableEnv gettimeofday)) polls)) :=
    recordFlush_invariant (P := Flawless) (fun _ _ h => h) (fun _ _ h => h)
      (fun _ ine _ h => writeEventLine_flawless h ine) polls ⟨rfl, rfl⟩
  have hsession : (session mode (reliableEnv gettimeofday) polls).writeOk = true := by
    unfold session writeTrailing
    simp only
    split
    · split
      · exact (writeLine_flawless (by exact ⟨hflush.1, hflush.2⟩) _).1
      · exact hflush.1
    · exact hflush.1
  simp only [run, hsession]
  rfl

end Record

end Evrp
