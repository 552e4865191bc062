import Evrp.Lib.Attempt
import Evrp.Server.Record

/-!
# A failed write truncates the recording

A recording whose writes may fail runs beside one in which every write
succeeds. Until the first failure both are in the same state up to the output
descriptor, and the failing one has put out the same lines. After it nothing
more is written, while the other one goes on adding lines. So the output is
always what remains of the full text when its blocks are written up to the
first failure.
-/

namespace Evrp

open Text Attempt

namespace Record

/-- The blocks handed to `writeOutput` for lines of text. -/
def lineBlocks (lines : List (List Char)) : List (List Char) :=
  lines.flatMap fun line => [line, ['\n']]

theorem lineBlocks_append (xs ys : List (List Char)) :
    lineBlocks (xs ++ ys) = lineBlocks xs ++ lineBlocks ys :=
  List.flatMap_append

theorem flatten_lineBlocks (lines : List (List Char)) :
    (lineBlocks lines).flatMap id = unlines lines := by
  rw [lineBlocks, List.flatMap_assoc]
  rfl

/-- A single write puts out the beginning of its data, all of it on success. -/
theorem writeOutput_part (f : OutputFile) (data : List Char) :
    ∃ part, part <+: id data ∧ (writeOutput f data).2.text = f.text ++ part ∧
      ((writeOutput f data).1 = true → part = id data) :=
  ⟨(writeLoop f.answers data).2.1, (writeLoop_spec f.answers data).1, rfl,
    (writeLoop_spec f.answers data).2⟩

/-- The same world with write calls that always succeed. -/
def reliable (env : RecordEnv) : RecordEnv := { env with answers := [] }

/-- A line is written block by block until one fails. -/
theorem writeLine_eq_writeAll {s : RecordState} (h : s.writeOk = true) (line : List Char) :
    writeLine s line = { s with
      file := (writeAll writeOutput s.file (lineBlocks [line])).2
      writeOk := (writeAll writeOutput s.file (lineBlocks [line])).1 } := by
  rw [writeLine, if_pos h]
  have hblocks : lineBlocks [line] = [line, ['\n']] := rfl
  rw [hblocks]
  cases hbody : (writeOutput s.file line).1 with
  | false => simp only [writeAll_cons_false hbody, hbody, Bool.false_eq_true, if_false]
  | true =>
    simp only [writeAll_cons_true hbody, hbody, if_true]
    cases hend : (writeOutput (writeOutput s.file line).2 ['\n']).1 with
    | false => rw [writeAll_cons_false hend]
    | true => rw [writeAll_cons_true hend, writeAll]

/-- While no write has failed, an event line is a leading line, if it is due, and the delta. -/
theorem writeEventLine_eq {env : RecordEnv} {s : RecordState} (h : s.writeOk = true)
    (ine : InputEvent) :
    writeEventLine env s ine =
      if (writeLeading env { s with eventLines := s.eventLines ++ [ine] } ine.timeUs).writeOk then
        writeDelta env
          (writeLeading env { s with eventLines := s.eventLines ++ [ine] } ine.timeUs) ine
      else writeLeading env { s with eventLines := s.eventLines ++ [ine] } ine.timeUs := by
  have hcalled : ¬ (!s.writeOk) = true := by
    rw [h]
    decide
  rw [writeEventLine]
  simp only [if_neg hcalled]
  generalize writeLeading env { s with eventLines := s.eventLines ++ [ine] } ine.timeUs = started
  cases started.writeOk <;> rfl

/-- No write has failed or will fail, and only lines were added to the text of `r`. -/
def Extends (r t : RecordState) : Prop :=
  Flawless t ∧ ∃ more, t.file.text = r.file.text ++ unlines more

theorem Extends.refl {r : RecordState} (h : Flawless r) : Extends r r :=
  ⟨h, [], (List.append_nil _).symm⟩

theorem Extends.writeLine {r t : RecordState} (h : Extends r t) (line : List Char) :
    Extends r (writeLine t line) := by
  obtain ⟨hflawless, more, hmore⟩ := h
  have hwritten := writeLine_flawless hflawless line
  refine ⟨hwritten, more ++ [line], ?_⟩
  rw [writeLine_text hwritten.1, hmore, unlines_append, unlines_singleton, List.append_assoc]

theorem Extends.writeEventLine {env : RecordEnv} {r t : RecordState} (h : Extends r t)
    (ine : InputEvent) : Extends r (writeEventLine env t ine) := by
  have hcalled : Extends r { t with eventLines := t.eventLines ++ [ine] } := h
  have hlead : Extends r
      (writeLeading env { t with eventLines := t.eventLines ++ [ine] } ine.timeUs) := by
    unfold writeLeading
    split
    · simp only
      split
      · exact Extends.writeLine (by exact hcalled) _
      · exact hcalled
    · exact hcalled
  unfold Record.writeEventLine
  simp only
  split
  · exact hcalled
  · split
    · exact hlead
    · exact hlead.writeLine _

/-- Where a run with failing writes stands, beside the run without failures. -/
structure Truncates (answers : List WriteAnswer) (s r : RecordState) : Prop where
  flawless : Flawless r
  written : ∃ lines, r.file.text = unlines lines ∧
    writeAll writeOutput ⟨[], answers⟩ (lineBlocks lines) = (s.writeOk, s.file)
  same : s.writeOk = true → ∃ file, s = { r with file := file }

namespace Truncates

variable {answers : List WriteAnswer} {s s' r r' : RecordState}

/-- After a failure the output stays, whatever the other run adds. -/
theorem extend (h : Truncates answers s r) (hfail : s.writeOk = false) (hr : Extends r r') :
    Truncates answers s r' := by
  obtain ⟨hflawless, more, hmore⟩ := hr
  obtain ⟨lines, htext, hwritten⟩ := h.written
  refine ⟨hflawless, ⟨lines ++ more, ?_, ?_⟩, fun hok => ?_⟩
  · rw [hmore, htext, unlines_append]
  · have hfailed : (writeAll writeOutput ⟨[], answers⟩ (lineBlocks lines)).1 = false := by
      rw [hwritten]
      exact hfail
    rw [lineBlocks_append, writeAll_append_false hfailed, hwritten]
  · rw [hfail] at hok
    cases hok

/-- A step that is taken only while no write has failed. -/
theorem guard {f g : RecordState → RecordState} (h : Truncates answers s r)
    (hok : s.writeOk = true → Truncates answers (f s) (g r)) (hr : Extends r (g r)) :
    Truncates answers (if s.writeOk then f s else s) (g r) := by
  cases hcase : s.writeOk with
  | true => exact hok hcase
  | false => exact h.extend hcase hr

/-- Both runs write the same line. -/
theorem writeLine (h : Truncates answers s r) (hok : s.writeOk = true) (line : List Char) :
    Truncates answers (writeLine s line) (writeLine r line) := by
  obtain ⟨lines, htext, hwritten⟩ := h.written
  have hr := writeLine_flawless h.flawless line
  have hbefore : (writeAll writeOutput ⟨[], answers⟩ (lineBlocks lines)).1 = true := by
    rw [hwritten]
    exact hok
  refine ⟨hr, ⟨lines ++ [line], ?_, ?_⟩, fun hok' => ?_⟩
  · rw [writeLine_text hr.1, htext, unlines_append, unlines_singleton]
  · rw [lineBlocks_append, writeAll_append_true hbefore, hwritten, writeLine_eq_writeAll hok]
  · obtain ⟨file, rfl⟩ := h.same hok
    rw [writeLine_eq_writeAll hok] at hok' ⊢
    rw [writeLine_eq_writeAll h.flawless.1] at hr ⊢
    have hboth : (writeAll writeOutput file (lineBlocks [line])).1 =
        (writeAll writeOutput r.file (lineBlocks [line])).1 := hok'.trans hr.1.symm
    refine ⟨(writeAll writeOutput file (lineBlocks [line])).2, ?_⟩
    simp only [hboth]

/-- Both runs change the same other fields. -/
theorem update (h : Truncates answers s r) (f : RecordState → RecordState)
    (hfile : ∀ t, (f t).file = t.file) (hok : ∀ t, (f t).writeOk = t.writeOk)
    (hcommute : ∀ t file, f { t with file := file } = { f t with file := file }) :
    Truncates answers (f s) (f r) := by
  obtain ⟨lines, htext, hwritten⟩ := h.written
  refine ⟨⟨?_, ?_⟩, ⟨lines, ?_, ?_⟩, fun hok' => ?_⟩
  · rw [hok, h.flawless.1]
  · rw [hfile, h.flawless.2]
  · rw [hfile, htext]
  · rw [hwritten, hfile, hok]
  · obtain ⟨file, hs⟩ := h.same (hok s ▸ hok')
    exact ⟨file, by rw [hs, hcommute]⟩

theorem writeLeading (h : Truncates answers s r) (env : RecordEnv) (hok : s.writeOk = true)
    (currentUs : ℤ) :
    Truncates answers (writeLeading env s currentUs) (writeLeading env r currentUs) := by
  obtain ⟨file, rfl⟩ := h.same hok
  unfold Record.writeLeading
  simp only
  split
  · have hstarted := h.update (fun t => { t with
      baselineUs := currentUs, clockReads := t.clockReads + 1 }) (fun _ => rfl) (fun _ => rfl)
      (fun _ _ => rfl)
    split
    · exact hstarted.writeLine hok _
    · exact hstarted
  · exact h

theorem writeDelta (h : Truncates answers s r) (env : RecordEnv) (hok : s.writeOk = true)
    (ine : InputEvent) : Truncates answers (writeDelta env s ine) (writeDelta env r ine) := by
  obtain ⟨file, rfl⟩ := h.same hok
  exact (h.writeLine hok _).update (fun t => { t with
    lastClientEventUs := (env.gettimeofday t.clockReads).us, clockReads := t.clockReads + 1 })
    (fun _ => rfl) (fun _ => rfl) (fun _ _ => rfl)

theorem writeEventLine (h : Truncates answers s r) (env : RecordEnv) (hok : s.writeOk = true)
    (ine : InputEvent) :
    Truncates answers (writeEventLine env s ine) (writeEventLine (reliable env) r ine) := by
  have hcalled := h.update (fun t => { t with eventLines := t.eventLines ++ [ine] })
    (fun _ => rfl) (fun _ => rfl) (fun _ _ => rfl)
  have hstarted := hcalled.writeLeading env hok ine.timeUs
  rw [writeEventLine_eq hok, writeEventLine_eq h.flawless.1,
    if_pos (show (Record.writeLeading (reliable env) _ _).writeOk = true from
      hstarted.flawless.1)]
  exact hstarted.guard (f := fun t => Record.writeDelta env t ine)
    (g := fun t => Record.writeDelta env t ine) (fun hok' => hstarted.writeDelta env hok' ine)
    ((Extends.refl hstarted.flawless).writeLine _)

/-- The loop over the events stops at the first failure; the other run completes it. -/
theorem writeEventLines (h : Truncates answers s r) (env : RecordEnv) (hok : s.writeOk = true)
    (es : List InputEvent) :
    Truncates answers (writeEventLines env s es) (writeEventLines (reliable env) r es) := by
  induction es generalizing s r with
  | nil => exact h
  | cons ine rest ih =>
    have hwritten := h.writeEventLine env hok ine
    rw [Record.writeEventLines, Record.writeEventLines, if_pos hwritten.flawless.1]
    refine hwritten.guard (f := fun t => Record.writeEventLines env t rest)
      (g := fun t => Record.writeEventLines (reliable env) t rest) (fun hok' => ih hwritten hok') ?_
    exact writeEventLines_invariant (fun _ ine _ ht => ht.writeEventLine ine) rest
      hwritten.flawless.1 (Extends.refl hwritten.flawless)

theorem recordEvent (h : Truncates answers s r) (mode : KeyboardCtrlCFilterMode)
    (env : RecordEnv) (hok : s.writeOk = true) (ine : InputEvent) :
    Truncates answers (recordEvent mode env s ine) (recordEvent mode (reliable env) r ine) := by
  obtain ⟨file, rfl⟩ := h.same hok
  unfold Record.recordEvent
  simp only
  split
  · exact (h.update (fun t => { t with
      filter := (processKeyboardEventWithCtrlFilter ine.toEvent mode r.filter).1 })
      (fun _ => rfl) (fun _ => rfl) (fun _ _ => rfl)).writeEventLines env hok _
  · exact h.writeEventLine env hok ine

theorem recordBatch (h : Truncates answers s r) (mode : KeyboardCtrlCFilterMode)
    (env : RecordEnv) (hok : s.writeOk = true) (batch : List InputEvent) :
    Truncates answers (recordBatch mode env s batch) (recordBatch mode (reliable env) r batch) := by
  induction batch generalizing s r with
  | nil => exact h
  | cons ine rest ih =>
    have hrecorded := h.recordEvent mode env hok ine
    rw [Record.recordBatch, Record.recordBatch, if_pos hrecorded.flawless.1]
    refine hrecorded.guard (f := fun t => Record.recordBatch mode env t rest)
      (g := fun t => Record.recordBatch mode (reliable env) t rest)
      (fun hok' => ih hrecorded hok') ?_
    exact recordBatch_invariant (fun _ _ ht => ht) (fun _ ine _ ht => ht.writeEventLine ine) rest
      hrecorded.flawless.1 (Extends.refl hrecorded.flawless)

theorem recordLoop (h : Truncates answers s r) (mode : KeyboardCtrlCFilterMode)
    (env : RecordEnv) (polls : List (Option (List InputEvent))) :
    Truncates answers (recordLoop mode env s polls) (recordLoop mode (reliable env) r polls) := by
  induction polls generalizing s r with
  | nil => exact h
  | cons poll polls ih =>
    have hextends : Extends r (Record.recordLoop mode (reliable env) r (poll :: polls)) :=
      recordLoop_invariant (fun _ _ ht => ht) (fun _ _ ht => ht)
        (fun _ ine _ ht => ht.writeEventLine ine) _ (Extends.refl h.flawless)
    cases poll with
    | none =>
      rw [Record.recordLoop]
      refine h.guard (f := fun t => Record.recordLoop mode env t polls)
        (g := fun t => Record.recordLoop mode (reliable env) t (none :: polls))
        (fun _ => ?_) hextends
      rw [Record.recordLoop, if_pos h.flawless.1]
      exact ih h
    | some batch =>
      rw [Record.recordLoop]
      refine h.guard (f := fun t => Record.recordLoop mode env (Record.recordBatch mode env
          { t with readEvents := t.readEvents ++ batch } batch) polls)
        (g := fun t => Record.recordLoop mode (reliable env) t (some batch :: polls))
        (fun hok => ?_) hextends
      rw [Record.recordLoop, if_pos h.flawless.1]
      have hread := h.update (fun t => { t with readEvents := t.readEvents ++ batch })
        (fun _ => rfl) (fun _ => rfl) (fun _ _ => rfl)
      exact ih (hread.recordBatch mode env hok batch)

theorem recordFlush (h : Truncates answers s r) (mode : KeyboardCtrlCFilterMode)
    (env : RecordEnv) :
    Truncates answers (recordFlush mode env s) (recordFlush mode (reliable env) r) := by
  cases hok : s.writeOk with
  | true =>
    obtain ⟨file, rfl⟩ := h.same hok
    unfold Record.recordFlush
    simp only
    split
    · exact (h.update (fun t => { t with
        filter := (flushKeyboardEventFilter mode r.filter).1 })
        (fun _ => rfl) (fun _ => rfl) (fun _ _ => rfl)).writeEventLines env hok _
    · exact h
  | false =>
    have hstays : Record.recordFlush mode env s = s := by
      rw [Record.recordFlush, if_neg fun hand => Bool.noConfusion (hok.symm.trans hand.1)]
    rw [hstays]
    refine h.extend hok ?_
    unfold Record.recordFlush
    split
    · rename_i hand
      exact writeEventLines_invariant (fun _ ine _ ht => ht.writeEventLine ine) _ hand.1
        (Extends.refl h.flawless)
    · exact Extends.refl h.flawless

theorem writeTrailing (h : Truncates answers s r) (env : RecordEnv) :
    Truncates answers (writeTrailing env s) (writeTrailing (reliable env) r) := by
  cases hok : s.writeOk with
  | true =>
    obtain ⟨file, rfl⟩ := h.same hok
    have hread := h.update (fun t => { t with clockReads := t.clockReads + 1 })
      (fun _ => rfl) (fun _ => rfl) (fun _ _ => rfl)
    unfold Record.writeTrailing
    simp only
    split
    · rw [show (reliable env).gettimeofday = env.gettimeofday from rfl]
      split
      · exact hread.writeLine hok _
      · exact hread
    · exact h
  | false =>
    have hstays : Record.writeTrailing env s = s := by
      rw [Record.writeTrailing, if_neg fun hand => Bool.noConfusion (hok.symm.trans hand.1)]
    rw [hstays]
    refine h.extend hok ?_
    have hrefl := Extends.refl h.flawless
    unfold Record.writeTrailing
    simp only
    split
    · split
      · exact Extends.writeLine (by exact hrefl) _
      · exact hrefl
    · exact hrefl

end Truncates

/-- The two sessions from their initial states. -/
theorem session_truncates (mode : KeyboardCtrlCFilterMode) (env : RecordEnv)
    (polls : List (Option (List InputEvent))) :
    Truncates env.answers (session mode env polls) (session mode (reliable env) polls) := by
  have hinitial : Truncates env.answers (.initial env) (.initial (reliable env)) :=
    ⟨⟨rfl, rfl⟩, ⟨[], rfl, rfl⟩, fun _ => ⟨_, rfl⟩⟩
  exact ((hinitial.recordLoop mode env polls).recordFlush mode env).writeTrailing env

/-- Listening and opening the output have succeeded. -/
def Started (env : RecordEnv) : Prop :=
  env.hasListener = true ∧ env.hasFileSystem = true ∧ env.startListening = true ∧
    env.openFd = true

instance (env : RecordEnv) : Decidable (Started env) := inferInstanceAs (Decidable (_ ∧ _))

/-- A run that has started ends at the end of its session, and succeeds only if every write and
the flush did. -/
theorem run_of_started {env : RecordEnv} (h : Started env) (mode : KeyboardCtrlCFilterMode)
    (polls : List (Option (List InputEvent))) :
    (run mode env polls).2 = session mode env polls ∧
      ((run mode env polls).1 = 0 → (session mode env polls).writeOk = true ∧
        env.flushFd = true) := by
  obtain ⟨hlistener, hfs, hlisten, hopen⟩ := h
  simp only [run, hlistener, hfs, hlisten, hopen, Bool.not_true, Bool.false_eq_true, if_false]
  cases (session mode env polls).writeOk with
  | false => exact ⟨rfl, fun hcode => absurd hcode one_ne_zero⟩
  | true =>
    cases env.flushFd with
    | false => exact ⟨rfl, fun hcode => absurd hcode one_ne_zero⟩
    | true => exact ⟨rfl, fun _ => ⟨rfl, rfl⟩⟩

/-- The output is the text of the run without failures, its blocks written up to the first
failure: a prefix of it, with no write after the failure, and all of it if the run succeeds. -/
theorem failed_write_truncates (mode : KeyboardCtrlCFilterMode) {env : RecordEnv}
    (h : Started env) (polls : List (Option (List InputEvent))) :
    ∃ lines, (run mode (reliable env) polls).2.file.text = unlines lines ∧
      writeAll writeOutput ⟨[], env.answers⟩ (lineBlocks lines) =
        ((run mode env polls).2.writeOk, (run mode env polls).2.file) ∧
      (run mode env polls).2.file.text <+: unlines lines ∧
      ((run mode env polls).1 = 0 →
        (run mode env polls).2.file.text = unlines lines ∧ env.flushFd = true) := by
  have hreliable : Started (reliable env) := h
  obtain ⟨hstate, hcode⟩ := run_of_started h mode polls
  rw [(run_of_started hreliable mode polls).1, hstate]
  obtain ⟨lines, htext, hwritten⟩ := (session_truncates mode env polls).written
  obtain ⟨part, hprefix, hout, hall⟩ := writeAll_prefix OutputFile.text id writeOutput_part
    ⟨[], env.answers⟩ (lineBlocks lines)
  rw [flatten_lineBlocks] at hprefix hall
  rw [hwritten] at hout hall
  have hout' : (session mode env polls).file.text = part := hout
  refine ⟨lines, htext, hwritten, hout' ▸ hprefix, fun hzero => ?_⟩
  obtain ⟨hok, hflush⟩ := hcode hzero
  exact ⟨hout'.trans (hall hok), hflush⟩

/-- The first write call takes five characters, the second is interrupted, the third takes two
and the fourth fails. -/
def shortWriteEnv : RecordEnv :=
  { reliableEnv (fun n => ⟨n, 0⟩) with answers := [.wrote 5, .eintr, .wrote 2, .error] }

theorem failed_write_truncates_shortWrite :
    (run .off shortWriteEnv [some [⟨.mouse, 0, 0, evRel, relX, 1⟩]]).1 = 1 ∧
      ∃ lines, (run .off (reliable shortWriteEnv)
          [some [⟨.mouse, 0, 0, evRel, relX, 1⟩]]).2.file.text = unlines lines ∧
        (run .off shortWriteEnv [some [⟨.mouse, 0, 0, evRel, relX, 1⟩]]).2.file.text <+:
          unlines lines := by
  obtain ⟨lines, htext, -, hprefix, -⟩ := failed_write_truncates .off
    (by decide : Started shortWriteEnv) [some [⟨.mouse, 0, 0, evRel, relX, 1⟩]]
  exact ⟨by decide, lines, htext, hprefix⟩

end Record

end Evrp
