import Evrp.Sdk.EventCodec
import Evrp.Sdk.LuaEventComposer
import Evrp.Server.RecordOrder

/-!
# Replay text undoes recording

The text of a successful recording is a sequence of lines: at most one leading
line, one line for every event, at most one trailing line. The deltas count from
the first event and may be negative. The composer reads every line back, and its
final normalisation replaces the recorder's baseline by the earliest event.
-/

namespace Evrp

open Text Word

namespace Record

/-- The lines of events recorded against a baseline. -/
def eventTextLines (baselineUs : ℤ) (events : List InputEvent) : List (List Char) :=
  events.map fun e => formatEventLine e.device e.toEvent (wrap 64 (e.timeUs - baselineUs))

/-- At most one line, and a duration line. -/
def IsDuration (format : ℤ → List Char) (lines : List (List Char)) : Prop :=
  lines = [] ∨ ∃ d, lines = [format d]

private theorem writeLeading_text {env : RecordEnv} {s : RecordState} {currentUs : ℤ}
    (h : (writeLeading env s currentUs).writeOk = true) :
    ∃ lead, IsDuration formatLeadingLine lead ∧ (0 ≤ s.baselineUs → lead = []) ∧
      (writeLeading env s currentUs).file.text = s.file.text ++ unlines lead ∧
      (writeLeading env s currentUs).baselineUs =
        if s.baselineUs < 0 then currentUs else s.baselineUs := by
  have hnil : s.file.text = s.file.text ++ unlines [] := (List.append_nil _).symm
  unfold writeLeading at h ⊢
  by_cases hfirst : s.baselineUs < 0
  · simp only [if_pos hfirst] at h ⊢
    generalize wrap 64 ((env.gettimeofday s.clockReads).us - (env.gettimeofday 0).us) =
      leadingUs at h ⊢
    by_cases hpos : 0 < leadingUs
    · simp only [if_pos hpos] at h ⊢
      obtain ⟨file, ok, hline⟩ := writeLine_frame
        { s with baselineUs := currentUs, clockReads := s.clockReads + 1 }
        (formatLeadingLine leadingUs)
      refine ⟨[formatLeadingLine leadingUs], Or.inr ⟨leadingUs, rfl⟩,
        fun hle => absurd hfirst (not_lt.mpr hle), ?_, by rw [hline]⟩
      rw [writeLine_text h, unlines_singleton]
    · simp only [if_neg hpos] at h ⊢
      exact ⟨[], Or.inl rfl, fun _ => rfl, hnil, trivial⟩
  · simp only [if_neg hfirst] at h ⊢
    exact ⟨[], Or.inl rfl, fun _ => rfl, hnil, trivial⟩

/-- A successful call appends the event's line, behind a leading line for the first event. -/
theorem writeEventLine_text {env : RecordEnv} {s : RecordState} {ine : InputEvent}
    (h : (writeEventLine env s ine).writeOk = true) :
    s.writeOk = true ∧ ∃ lead, IsDuration formatLeadingLine lead ∧
      (0 ≤ s.baselineUs → lead = []) ∧
      (writeEventLine env s ine).baselineUs =
        (if s.baselineUs < 0 then ine.timeUs else s.baselineUs) ∧
      (writeEventLine env s ine).file.text = s.file.text ++ unlines
        (lead ++ eventTextLines (writeEventLine env s ine).baselineUs [ine]) := by
  unfold writeEventLine at h ⊢
  simp only at h ⊢
  by_cases hok : s.writeOk = true
  · rw [if_neg (by rw [hok]; decide)] at h ⊢
    generalize hlead : writeLeading env { s with eventLines := s.eventLines ++ [ine] }
      ine.timeUs = started at h ⊢
    by_cases hstarted : started.writeOk = true
    · rw [if_neg (by rw [hstarted]; decide)] at h ⊢
      rw [← hlead] at hstarted
      obtain ⟨lead, hduration, hnone, htext, hbaseline⟩ := writeLeading_text hstarted
      rw [hlead] at htext hbaseline
      obtain ⟨file, ok, hline⟩ := writeLine_frame started
        (formatEventLine ine.device ine.toEvent (wrap 64 (ine.timeUs - started.baselineUs)))
      have hwritten : (writeDelta env started ine).baselineUs = started.baselineUs := by
        rw [writeDelta, hline]
      have hdelta : (writeDelta env started ine).file.text = started.file.text ++
          unlines (eventTextLines started.baselineUs [ine]) := by
        rw [writeDelta] at h ⊢
        simp only at h ⊢
        rw [writeLine_text h, eventTextLines, List.map_singleton, unlines_singleton]
      refine ⟨hok, lead, hduration, hnone, hwritten.trans hbaseline, ?_⟩
      rw [hdelta, hwritten, htext, unlines_append, List.append_assoc]
    · rw [if_pos (by simpa using hstarted)] at h
      exact absurd h hstarted
  · rw [if_pos (by simpa using hok)] at h
    exact absurd h hok

/-- What the text holds while no write has failed and no event lies before the epoch. -/
def TextInvariant (s : RecordState) : Prop :=
  s.writeOk = true → (∀ e ∈ s.eventLines, 0 ≤ e.timeUs) →
    ∃ lead, IsDuration formatLeadingLine lead ∧
      s.file.text = unlines (lead ++ eventTextLines s.baselineUs s.eventLines) ∧
      (s.eventLines = [] → lead = [] ∧ s.baselineUs = -1) ∧
      (s.eventLines ≠ [] → ∃ e ∈ s.eventLines, s.baselineUs = e.timeUs)

theorem writeEventLine_textInvariant {env : RecordEnv} {s : RecordState} (ine : InputEvent)
    (hs : TextInvariant s) : TextInvariant (writeEventLine env s ine) := by
  intro h hnonneg
  obtain ⟨-, -, hlines⟩ := writeEventLine_frame env s ine
  obtain ⟨hok, lead', hduration', hnone, hbaseline, htext⟩ := writeEventLine_text h
  rw [hlines] at hnonneg
  obtain ⟨lead, hduration, hbefore, hempty, hfirst⟩ := hs hok
    fun e he => hnonneg e (List.mem_append_left _ he)
  rw [hlines]
  by_cases hnil : s.eventLines = []
  · obtain ⟨hlead, hstart⟩ := hempty hnil
    rw [hstart, if_pos (by decide)] at hbaseline
    rw [hbefore, hlead, hnil] at htext
    rw [hnil, List.nil_append]
    refine ⟨lead', hduration', htext, nofun, fun _ => ?_⟩
    exact ⟨ine, List.mem_singleton.mpr rfl, hbaseline⟩
  · obtain ⟨e, he, hbase⟩ := hfirst hnil
    have hle : 0 ≤ s.baselineUs := hbase ▸ hnonneg e (List.mem_append_left _ he)
    rw [if_neg (not_lt.mpr hle)] at hbaseline
    refine ⟨lead, hduration, ?_, fun hc => absurd hc (List.append_ne_nil_of_right_ne_nil _
      (List.cons_ne_nil _ _)), fun _ => ⟨e, List.mem_append_left _ he, hbaseline.trans hbase⟩⟩
    rw [htext, hnone hle, List.nil_append, hbefore, hbaseline, ← unlines_append,
      List.append_assoc]
    simp only [eventTextLines, List.map_append]

private theorem writeTrailing_text {env : RecordEnv} {s : RecordState}
    (h : (writeTrailing env s).writeOk = true) :
    s.writeOk = true ∧ ∃ trail, IsDuration formatTrailingLine trail ∧
      (writeTrailing env s).file.text = s.file.text ++ unlines trail ∧
      (writeTrailing env s).eventLines = s.eventLines := by
  have hlines := (writeTrailing_frame env s).2
  have hnil : s.file.text = s.file.text ++ unlines [] := (List.append_nil _).symm
  rw [hlines]
  unfold writeTrailing at h ⊢
  by_cases hlast : s.writeOk = true ∧ 0 ≤ s.lastClientEventUs
  · simp only [if_pos hlast] at h ⊢
    generalize wrap 64 ((env.gettimeofday s.clockReads).us - s.lastClientEventUs) =
      trailingUs at h ⊢
    by_cases hpos : 0 < trailingUs
    · simp only [if_pos hpos] at h ⊢
      refine ⟨hlast.1, [formatTrailingLine trailingUs], Or.inr ⟨trailingUs, rfl⟩, ?_, trivial⟩
      rw [writeLine_text h, unlines_singleton]
    · simp only [if_neg hpos] at h ⊢
      exact ⟨hlast.1, [], Or.inl rfl, hnil, trivial⟩
  · simp only [if_neg hlast] at h ⊢
    exact ⟨h, [], Or.inl rfl, hnil, trivial⟩

/-- The text of a successful run is its event lines between at most one leading and at most
one trailing line. -/
theorem session_text {mode : KeyboardCtrlCFilterMode} {env : RecordEnv}
    {polls : List (Option (List InputEvent))} (h : (session mode env polls).writeOk = true)
    (hne : (session mode env polls).eventLines ≠ [])
    (hnonneg : ∀ e ∈ (session mode env polls).eventLines, 0 ≤ e.timeUs) :
    ∃ lead trail, IsDuration formatLeadingLine lead ∧ IsDuration formatTrailingLine trail ∧
      ∃ e ∈ (session mode env polls).eventLines,
        (session mode env polls).file.text = unlines
          (lead ++ eventTextLines e.timeUs (session mode env polls).eventLines ++ trail) := by
  have hflush : TextInvariant (recordFlush mode env (recordLoop mode env (.initial env) polls)) :=
    recordFlush_invariant (P := TextInvariant) (fun _ _ h => h) (fun _ _ h => h)
      (fun _ ine _ h => writeEventLine_textInvariant ine h) polls
      fun _ _ => ⟨[], Or.inl rfl, rfl, fun _ => ⟨rfl, rfl⟩, fun hc => absurd rfl hc⟩
  unfold session at h hne hnonneg ⊢
  generalize recordFlush mode env (recordLoop mode env (.initial env) polls) = s
    at h hne hnonneg hflush ⊢
  obtain ⟨hok, trail, htrail, htext, hlines⟩ := writeTrailing_text h
  rw [hlines] at hne hnonneg ⊢
  obtain ⟨lead, hlead, hbefore, -, hfirst⟩ := hflush hok hnonneg
  obtain ⟨e, he, hbase⟩ := hfirst hne
  refine ⟨lead, trail, hlead, htrail, e, he, ?_⟩
  rw [htext, hbefore, hbase, unlines_append (lead ++ _)]

/-- An event that a recording can hold: of a known device, with the widths of evdev, and
at a time between the epoch and the end of the 64-bit timeline. -/
structure Replayable (e : InputEvent) : Prop where
  device : e.device ≠ .unspecified
  evdev : e.FromEvdev
  value : Fits32 e.value
  nonneg : 0 ≤ e.timeSec * 1000000 + e.timeUsec
  bounded : e.timeSec * 1000000 + e.timeUsec < 2 ^ 63

instance (e : InputEvent) : Decidable (Replayable e) :=
  decidable_of_iff (e.device ≠ .unspecified ∧ e.FromEvdev ∧ Fits32 e.value ∧
      0 ≤ e.timeSec * 1000000 + e.timeUsec ∧ e.timeSec * 1000000 + e.timeUsec < 2 ^ 63)
    ⟨fun ⟨a, b, c, d, f⟩ => ⟨a, b, c, d, f⟩, fun ⟨a, b, c, d, f⟩ => ⟨a, b, c, d, f⟩⟩

theorem Replayable.timeUs {e : InputEvent} (h : Replayable e) :
    e.timeUs = e.timeSec * 1000000 + e.timeUsec := by
  have hnonneg := h.nonneg
  exact e.timeUs_eq ⟨by omega, h.bounded⟩

/-- The difference of two times of the timeline fits a word. -/
theorem Replayable.fits_sub {e f : InputEvent} (he : Replayable e) (hf : Replayable f) :
    Fits64 (e.timeUs - f.timeUs) := by
  have := he.nonneg
  have := he.bounded
  have := hf.nonneg
  have := hf.bounded
  rw [he.timeUs, hf.timeUs]
  constructor <;> omega

variable (lua : List Char → ℤ × List InputEvent)

/-- No chunk has been composed, so recorded times are not adjusted. -/
def NoLua (s : ComposerState) : Prop := s.hadLua = false ∧ s.recordedTimeAdjustUs = 0

private theorem label_facts {e : InputEvent} (h : e.device ≠ .unspecified) :
    e.device.toLabel ≠ "leading".toList ∧ e.device.toLabel ≠ "trailing".toList ∧
      e.device.toLabel ≠ [] := by
  have hkind {label : List Char} (hl : toKind label = .unspecified) :
      e.device.toLabel ≠ label := by
    rintro rfl
    rw [toKind_toLabel] at hl
    exact h hl
  exact ⟨hkind (by decide), hkind (by decide), hkind (by decide)⟩

private theorem isEmpty_of_label {line label : List Char} (h : parseEventLabel line = label)
    (hne : label ≠ []) : line.isEmpty = false := by
  apply Bool.eq_false_iff.mpr
  intro hempty
  apply hne
  rw [← h, List.isEmpty_iff.mp hempty]
  rfl

private theorem parse_recorded {e : InputEvent} (he : Replayable e) {d : ℤ} (hd : Fits64 d) :
    parseEventLine (formatEventLine e.device e.toEvent d) = some ⟨d, e.type, e.code, e.value⟩ := by
  obtain ⟨htype, hcode⟩ := he.evdev
  have hparse := parseEventLine_formatEventLine e.device e.toEvent
    (Nat.mod_lt _ (by decide)) (Nat.mod_lt _ (by decide)) he.value hd
  simp only [InputEvent.toEvent, Nat.mod_eq_of_lt htype, Nat.mod_eq_of_lt hcode] at hparse ⊢
  exact hparse

/-- A recorded line is composed to its event at its delta. -/
theorem composeLine_recorded {s : ComposerState} (hs : NoLua s) {e : InputEvent}
    (he : Replayable e) {d : ℤ} (hd : Fits64 d) :
    ∃ t, composeLine lua s (formatEventLine e.device e.toEvent d) = (0, t) ∧ NoLua t ∧
      t.events = s.events ++ [setEventTimeUs e d] := by
  obtain ⟨hleading, htrailing, hlabel⟩ := label_facts he.device
  have hempty := isEmpty_of_label (parseEventLabel_formatEventLine e.device e.toEvent d) hlabel
  obtain ⟨hlua, hadjust⟩ := hs
  refine ⟨composeRecorded s e.device ⟨d, e.type, e.code, e.value⟩, ?_, ?_, ?_⟩
  · rw [composeLine, hempty, if_neg Bool.false_ne_true]
    simp only [parseEventLabel_formatEventLine, if_neg hleading, if_neg htrailing, toKind_toLabel,
      if_neg he.device, parse_recorded he hd]
  · simp only [NoLua, composeRecorded, hlua, hadjust, Bool.and_false, Bool.false_and,
      Bool.false_eq_true, if_false, and_self]
  · simp only [composeRecorded, hlua, hadjust, Bool.and_false, Bool.false_and,
      Bool.false_eq_true, if_false, Int.add_zero, wrap64_of_fits hd]
    rfl

/-- The recorded lines are composed in order, whatever follows them. -/
theorem composeLines_recorded {s : ComposerState} (hs : NoLua s) {b : InputEvent}
    (hb : Replayable b) {es : List InputEvent} (hes : ∀ e ∈ es, Replayable e)
    (rest : List (List Char)) :
    ∃ t, composeLines lua s (eventTextLines b.timeUs es ++ rest) = composeLines lua t rest ∧
      NoLua t ∧ t.events = s.events ++ es.map fun e => setEventTimeUs e (e.timeUs - b.timeUs) := by
  induction es generalizing s with
  | nil => exact ⟨s, rfl, hs, (List.append_nil _).symm⟩
  | cons e es ih =>
    have he := hes e (List.mem_cons_self ..)
    have hfits := he.fits_sub hb
    obtain ⟨t, hline, ht, hevents⟩ := composeLine_recorded lua hs he hfits
    obtain ⟨u, hlines, hu, hall⟩ := ih ht fun x hx => hes x (List.mem_cons_of_mem _ hx)
    refine ⟨u, ?_, hu, ?_⟩
    · rw [← hlines, eventTextLines, List.map_cons, List.cons_append, wrap64_of_fits hfits]
      exact composeLines_cons lua hline _
    · rw [hall, hevents, List.append_assoc, List.map_cons, List.singleton_append]

private theorem composeLines_leading {s : ComposerState} (hs : NoLua s)
    {lead : List (List Char)} (hlead : IsDuration formatLeadingLine lead)
    (rest : List (List Char)) :
    ∃ t, composeLines lua s (lead ++ rest) = composeLines lua t rest ∧ NoLua t ∧
      t.events = s.events := by
  rcases hlead with rfl | ⟨d, rfl⟩
  · exact ⟨s, rfl, hs, rfl⟩
  · have hlabel := parseEventLabel_formatLeadingLine d
    have hempty := isEmpty_of_label hlabel (by decide)
    have hline : composeLine lua s (formatLeadingLine d) = (0, { s with
        leadingDeltaUs := (parseLeadingLine (formatLeadingLine d)).getD s.leadingDeltaUs }) := by
      rw [composeLine, hempty, if_neg Bool.false_ne_true]
      simp only [hlabel, if_true]
    exact ⟨_, composeLines_cons lua hline rest, hs, rfl⟩

private theorem composeLines_trailing (s : ComposerState) {trail : List (List Char)}
    (htrail : IsDuration formatTrailingLine trail) : composeLines lua s trail = (0, s) := by
  rcases htrail with rfl | ⟨d, rfl⟩
  · rfl
  · have hlabel := parseEventLabel_formatTrailingLine d
    have hempty := isEmpty_of_label hlabel (by decide)
    have hother : ¬ "trailing".toList = "leading".toList := by decide
    have hline : composeLine lua s (formatTrailingLine d) = (0, s) := by
      rw [composeLine, hempty, if_neg Bool.false_ne_true]
      simp only [hlabel, if_neg hother, if_true]
    exact composeLines_cons lua hline []

/-- Normalisation replaces the common baseline by the earliest event. -/
theorem normalizeTimelineToZero_recorded {b : InputEvent} (hb : Replayable b)
    {es : List InputEvent} (hne : es ≠ []) (hes : ∀ e ∈ es, Replayable e) :
    ∃ first ∈ es, (∀ e ∈ es, first.timeUs ≤ e.timeUs) ∧
      normalizeTimelineToZero (es.map fun e => setEventTimeUs e (e.timeUs - b.timeUs)) =
        es.map fun e => setEventTimeUs e (e.timeUs - first.timeUs) := by
  have htime : ∀ e ∈ es, (setEventTimeUs e (e.timeUs - b.timeUs)).timeUs = e.timeUs - b.timeUs :=
    fun e he => setEventTimeUs_timeUs e ((hes e he).fits_sub hb)
  have hne' : (es.map fun e => setEventTimeUs e (e.timeUs - b.timeUs)) ≠ [] := by
    simpa only [ne_eq, List.map_eq_nil_iff] using hne
  obtain ⟨x, hx, hmin, hleast⟩ := vectorMinTimeUs_spec hne'
  obtain ⟨first, hfirst, rfl⟩ := List.mem_map.mp hx
  rw [htime first hfirst] at hmin hleast
  refine ⟨first, hfirst, fun e he => ?_, ?_⟩
  · have hle := hleast _ (List.mem_map_of_mem he)
    rw [htime e he] at hle
    omega
  · rw [normalizeTimelineToZero, hmin, List.map_map]
    apply List.map_congr_left
    intro e he
    have hdiff : e.timeUs - b.timeUs - (first.timeUs - b.timeUs) = e.timeUs - first.timeUs := by
      omega
    rw [Function.comp_apply, htime e he, setEventTimeUs_setEventTimeUs, hdiff,
      wrap64_of_fits ((hes e he).fits_sub (hes first hfirst))]

private theorem newline_not_mem_recording {lead trail : List (List Char)} {baselineUs : ℤ}
    {es : List InputEvent} (hlead : IsDuration formatLeadingLine lead)
    (htrail : IsDuration formatTrailingLine trail) :
    ∀ l ∈ lead ++ eventTextLines baselineUs es ++ trail, '\n' ∉ l := by
  intro l hl
  simp only [List.mem_append] at hl
  rcases hl with (hl | hl) | hl
  · rcases hlead with rfl | ⟨d, rfl⟩
    · exact absurd hl List.not_mem_nil
    · rw [List.mem_singleton.mp hl]
      exact newline_not_mem_formatDurationLine (by decide) d
  · obtain ⟨e, -, rfl⟩ := List.mem_map.mp hl
    exact newline_not_mem_formatEventLine _ _ _
  · rcases htrail with rfl | ⟨d, rfl⟩
    · exact absurd hl List.not_mem_nil
    · rw [List.mem_singleton.mp hl]
      exact newline_not_mem_formatDurationLine (by decide) d

private theorem looksLikeRecording {lead trail : List (List Char)} {b : InputEvent}
    {es : List InputEvent} (hb : Replayable b) (hmem : b ∈ es) :
    (lead ++ eventTextLines b.timeUs es ++ trail).any lineLooksLikeRecordingFormat = true := by
  have hfits := hb.fits_sub hb
  obtain ⟨hleading, htrailing, hlabel⟩ := label_facts hb.device
  have hempty := isEmpty_of_label
    (parseEventLabel_formatEventLine b.device b.toEvent (b.timeUs - b.timeUs)) hlabel
  have hline : lineLooksLikeRecordingFormat
      (formatEventLine b.device b.toEvent (b.timeUs - b.timeUs)) = true := by
    rw [lineLooksLikeRecordingFormat, hempty, if_neg Bool.false_ne_true]
    simp only [parseEventLabel_formatEventLine, hleading, htrailing, false_and, if_false,
      toKind_toLabel, parse_recorded hb hfits, Option.isSome_some, Bool.and_true]
    exact decide_eq_true hb.device
  refine List.any_eq_true.mpr ⟨_, ?_, hline⟩
  refine List.mem_append_left _ (List.mem_append_right _ ?_)
  rw [eventTextLines, List.mem_map]
  exact ⟨b, hmem, by rw [wrap64_of_fits hfits]⟩

/-- The text of recorded lines is composed to the recorded events. -/
theorem toEvents_unlines {lead trail : List (List Char)} {b : InputEvent} {es : List InputEvent}
    (hlead : IsDuration formatLeadingLine lead) (htrail : IsDuration formatTrailingLine trail)
    (hmem : b ∈ es) (hes : ∀ e ∈ es, Replayable e) :
    ∃ first ∈ es, (∀ e ∈ es, first.timeUs ≤ e.timeUs) ∧
      toEvents lua (unlines (lead ++ eventTextLines b.timeUs es ++ trail)) =
        (0, es.map fun e => setEventTimeUs e (e.timeUs - first.timeUs)) := by
  have hb := hes b hmem
  have hlines : getLines (unlines (lead ++ eventTextLines b.timeUs es ++ trail)) =
      lead ++ eventTextLines b.timeUs es ++ trail :=
    getLines_unlines (newline_not_mem_recording hlead htrail)
  obtain ⟨s, hs, hplain, hnone⟩ := composeLines_leading lua
    (show NoLua .initial from ⟨rfl, rfl⟩) hlead (eventTextLines b.timeUs es ++ trail)
  obtain ⟨t, ht, -, hevents⟩ := composeLines_recorded lua hplain hb hes trail
  rw [hnone] at hevents
  have hcomposed : composeLines lua .initial (lead ++ eventTextLines b.timeUs es ++ trail) =
      (0, t) := by
    rw [List.append_assoc, hs, ht, composeLines_trailing lua t htrail]
  obtain ⟨first, hfirst, hleast, hnormal⟩ :=
    normalizeTimelineToZero_recorded hb (List.ne_nil_of_mem hmem) hes
  refine ⟨first, hfirst, hleast, ?_⟩
  rw [toEvents, textLooksLikeRecordingFormat, hlines, looksLikeRecording hb hmem, hcomposed]
  simp only [Bool.not_true, Bool.false_eq_true, if_false, ne_eq, not_true_eq_false, hevents]
  exact congrArg (Prod.mk 0) hnormal

/-- The text of a successful recording is composed to the events of its lines. -/
theorem toEvents_eventLines {mode : KeyboardCtrlCFilterMode} {env : RecordEnv}
    {polls : List (Option (List InputEvent))} (hcode : (run mode env polls).1 = 0)
    (hne : (run mode env polls).2.eventLines ≠ [])
    (hes : ∀ e ∈ (run mode env polls).2.eventLines, Replayable e) :
    ∃ first ∈ (run mode env polls).2.eventLines,
      (∀ e ∈ (run mode env polls).2.eventLines, first.timeUs ≤ e.timeUs) ∧
      toEvents lua (run mode env polls).2.file.text =
        (0, (run mode env polls).2.eventLines.map fun e =>
          setEventTimeUs e (e.timeUs - first.timeUs)) := by
  obtain ⟨hstate, hok⟩ := run_code_zero hcode
  rw [hstate] at hne hes ⊢
  have hnonneg : ∀ e ∈ (session mode env polls).eventLines, 0 ≤ e.timeUs := by
    intro e he
    rw [(hes e he).timeUs]
    exact (hes e he).nonneg
  obtain ⟨lead, trail, hlead, htrail, b, hb, htext⟩ := session_text hok hne hnonneg
  rw [htext]
  exact toEvents_unlines lua hlead htrail hb hes

/-- Composing the text of a successful recording yields the recorded events in order, on a
timeline that starts at the earliest of them. -/
theorem toEvents_recording {mode : KeyboardCtrlCFilterMode} {env : RecordEnv}
    {polls : List (Option (List InputEvent))} (hcode : (run mode env polls).1 = 0)
    (hne : (run mode env polls).2.eventLines ≠ [])
    (hes : ∀ e ∈ (run mode env polls).2.eventLines, Replayable e) :
    ∃ first ∈ (run mode env polls).2.eventLines,
      (∀ e ∈ (run mode env polls).2.eventLines,
        first.timeSec * 1000000 + first.timeUsec ≤ e.timeSec * 1000000 + e.timeUsec) ∧
      toEvents lua (run mode env polls).2.file.text =
        (0, (run mode env polls).2.eventLines.map fun e => { e with
          timeSec := (e.timeSec * 1000000 + e.timeUsec -
            (first.timeSec * 1000000 + first.timeUsec)) / 1000000
          timeUsec := (e.timeSec * 1000000 + e.timeUsec -
            (first.timeSec * 1000000 + first.timeUsec)) % 1000000 }) := by
  obtain ⟨hstate, hok⟩ := run_code_zero hcode
  rw [hstate] at hne hes ⊢
  have hnonneg : ∀ e ∈ (session mode env polls).eventLines, 0 ≤ e.timeUs := by
    intro e he
    rw [(hes e he).timeUs]
    exact (hes e he).nonneg
  obtain ⟨lead, trail, hlead, htrail, b, hb, htext⟩ := session_text hok hne hnonneg
  obtain ⟨first, hfirst, hleast, hevents⟩ := toEvents_unlines lua hlead htrail hb hes
  rw [htext, hevents]
  have hfirstTime := (hes first hfirst).timeUs
  refine ⟨first, hfirst, fun e he => ?_, ?_⟩
  · rw [← hfirstTime, ← (hes e he).timeUs]
    exact hleast e he
  · refine congrArg (Prod.mk 0) (List.map_congr_left fun e he => ?_)
    rw [setEventTimeUs_of_nonneg e (sub_nonneg.mpr (hleast e he)), (hes e he).timeUs, hfirstTime]

/-- Two devices whose events arrive out of order. -/
def unorderedBatch : List InputEvent :=
  [⟨.mouse, 5, 10, evRel, relX, -3⟩, ⟨.keyboard, 4, 999999, evKey, keyA, 1⟩]

theorem toEvents_recording_unorderedBatch :
    toEvents (fun _ => (0, []))
      (run .full (reliableEnv fun n => ⟨n, 0⟩) [some unorderedBatch]).2.file.text =
      (0, [⟨.mouse, 0, 11, evRel, relX, -3⟩, ⟨.keyboard, 0, 0, evKey, keyA, 1⟩]) := by
  have hcode := run_code_reliableEnv .full (fun n => ⟨n, 0⟩) [some unorderedBatch]
  have hlines : (run .full (reliableEnv fun n => ⟨n, 0⟩) [some unorderedBatch]).2.eventLines =
      unorderedBatch := (run_eventLines_reliableEnv .full _ _).2
  obtain ⟨first, hfirst, hleast, hevents⟩ := toEvents_recording (fun _ => (0, [])) hcode
    (by rw [hlines]; decide) (by rw [hlines]; decide)
  rw [hlines] at hfirst hleast hevents
  rw [hevents]
  rcases List.mem_cons.mp hfirst with rfl | hfirst
  · exact absurd (hleast _ (List.mem_cons_of_mem _ (List.mem_singleton.mpr rfl))) (by decide)
  · rw [List.mem_singleton.mp hfirst]
    decide

end Record

end Evrp
