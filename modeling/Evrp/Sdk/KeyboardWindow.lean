import Evrp.Sdk.Keyboard

/-!
# Ctrl windows of the keyboard stream

A window opens with the first Ctrl key event and closes when the last Ctrl key
is released, or with the next ordinary event if no Ctrl key is held. Whether a
window is open, how many Ctrl keys are held in it and whether KEY_C was pressed
are functions of the keyboard events alone. The filter is specified against
them: inside a window it only buffers, and at the close it emits a beginning of
the buffer, which is empty exactly for a chord in full mode.
-/

namespace Evrp

/-- What the keyboard events so far say about the current window. -/
structure CtrlWindow where
  depth : ℕ
  chord : Bool
  isOpen : Bool
  deriving DecidableEq, Repr

/-- No window is open. -/
def CtrlWindow.shut : CtrlWindow := ⟨0, false, false⟩

/-- An event of one of the two Ctrl keys. -/
def Event.isCtrlEvent (e : Event) : Bool := e.type == evKey && e.isCtrlKey

/-- The event after which no window is open. -/
def CtrlWindow.closes (w : CtrlWindow) (e : Event) : Bool :=
  if e.isCtrlEvent then e.value == 0 && decide (w.depth ≤ 1) else w.depth == 0

/-- The number of Ctrl keys held after an event. -/
def CtrlWindow.nextDepth (w : CtrlWindow) (e : Event) : ℕ :=
  if e.isCtrlEvent then
    if e.value = 1 then w.depth + 1 else if e.value = 0 then w.depth - 1 else w.depth
  else w.depth

/-- The window after one more keyboard event. -/
def CtrlWindow.next (w : CtrlWindow) (e : Event) : CtrlWindow :=
  if w.closes e then .shut else ⟨w.nextDepth e, w.chord || e.isCtrlCPress, true⟩

theorem CtrlWindow.next_of_closes {w : CtrlWindow} {e : Event} (h : w.closes e = true) :
    w.next e = .shut := by
  rw [CtrlWindow.next, if_pos h]

theorem CtrlWindow.next_of_not_closes {w : CtrlWindow} {e : Event} (h : w.closes e = false) :
    w.next e = ⟨w.nextDepth e, w.chord || e.isCtrlCPress, true⟩ := by
  rw [CtrlWindow.next, h, if_neg Bool.false_ne_true]

theorem CtrlWindow.nextDepth_release {w : CtrlWindow} {e : Event} (hctrl : e.isCtrlEvent = true)
    (hvalue : e.value = 0) : w.nextDepth e = w.depth - 1 := by
  rw [CtrlWindow.nextDepth, if_pos hctrl, if_neg (by omega), if_pos hvalue]

/-- The window a filter state stands for. -/
def KeyboardFilterState.window (s : KeyboardFilterState) : CtrlWindow :=
  ⟨s.ctrlDownCount.toNat, s.sawCtrlC, !s.pendingEvents.isEmpty⟩

/-- The filter drops the window it closes: a chord in full mode. -/
def CtrlWindow.dropped (mode : KeyboardCtrlCFilterMode) (w : CtrlWindow) : Bool :=
  decide (mode = .full) && w.chord

theorem lastCtrlCPress_lt {pending : List Event} (h : ∃ e ∈ pending, e.isCtrlCPress = true) :
    lastCtrlCPress pending < pending.length := by
  have hfold : ∀ (l : List Event) (i bound last : ℕ), i + l.length ≤ bound →
      (last < bound ∨ ∃ e ∈ l, e.isCtrlCPress = true) →
      (l.zipIdx i).foldl (fun last e => if e.1.isCtrlCPress then e.2 else last) last < bound := by
    intro l
    induction l with
    | nil =>
      rintro i bound last - (hlast | ⟨e, he, -⟩)
      · exact hlast
      · exact absurd he List.not_mem_nil
    | cons a l ih =>
      intro i bound last hlen hhit
      rw [List.length_cons] at hlen
      rw [List.zipIdx_cons, List.foldl_cons]
      apply ih (i + 1) bound _ (by omega)
      by_cases ha : a.isCtrlCPress = true
      · rw [if_pos ha]
        exact Or.inl (by omega)
      · rw [if_neg ha]
        rcases hhit with hlast | ⟨e, he, hpress⟩
        · exact Or.inl hlast
        · rcases List.mem_cons.mp he with rfl | he
          · exact absurd hpress ha
          · exact Or.inr ⟨e, he, hpress⟩
  exact hfold pending 0 _ _ (Nat.le_of_eq (Nat.zero_add _)) (Or.inr h)

/-- Leaving a window emits a beginning of it: nothing for a dropped window, and otherwise
at least its first event. -/
theorem KeyboardFilterState.emitPending_spec (mode : KeyboardCtrlCFilterMode)
    {s : KeyboardFilterState} (hmode : mode ≠ .off)
    (hpress : s.sawCtrlC = true → ∃ e ∈ s.pendingEvents, e.isCtrlCPress = true) :
    s.emitPending mode <+: s.pendingEvents ∧
      (s.window.dropped mode = true → s.emitPending mode = []) ∧
      (s.window.dropped mode = false →
        (s.emitPending mode).head? = s.pendingEvents.head?) := by
  unfold KeyboardFilterState.emitPending
  simp only [CtrlWindow.dropped, KeyboardFilterState.window, Bool.and_eq_true, decide_eq_true_eq]
  cases hsaw : s.sawCtrlC with
  | false =>
    rw [if_pos (by rfl)]
    exact ⟨List.prefix_rfl, nofun, fun _ => rfl⟩
  | true =>
    have hlt := lastCtrlCPress_lt (hpress hsaw)
    rw [if_neg (by decide)]
    cases mode with
    | off => exact absurd rfl hmode
    | full =>
      rw [if_neg (by decide)]
      exact ⟨List.nil_prefix, fun _ => rfl, nofun⟩
    | endingOnly =>
      rw [if_pos rfl, emitPendingThroughLastCtrlCPress, if_pos hlt]
      refine ⟨List.take_prefix _ _, nofun, fun _ => ?_⟩
      rw [List.head?_take, if_neg (Nat.succ_ne_zero _)]

/-- One event through the filter, in terms of the window: the window moves on, the buffer
grows inside it, and at its close a beginning of the buffer comes out. -/
structure FilterStep (mode : KeyboardCtrlCFilterMode) (s : KeyboardFilterState) (ev : Event)
    (t : KeyboardFilterState) (out : List Event) : Prop where
  sound : t.Sound
  window : t.window = s.window.next ev
  inside : s.window.closes ev = false → t.pendingEvents = s.pendingEvents ++ [ev] ∧ out = []
  emptied : s.window.closes ev = true → t.pendingEvents = []
  beginning : s.window.closes ev = true → out <+: s.pendingEvents ++ [ev]
  silent : s.window.closes ev = true → s.window.dropped mode = true → out = []
  first : s.window.closes ev = true → s.window.dropped mode = false →
    out.head? = (s.pendingEvents ++ [ev]).head?

/-- The counter after a Ctrl key event is the depth of the next window. -/
private theorem bufferCtrl_count {s : KeyboardFilterState} {ev : Event} (hs : s.Sound)
    (hctrl : ev.isCtrlEvent = true) :
    0 ≤ (s.bufferCtrl ev).ctrlDownCount ∧
      (s.bufferCtrl ev).ctrlDownCount.toNat = s.window.nextDepth ev := by
  have hcount := hs.count_nonneg
  simp only [KeyboardFilterState.bufferCtrl, KeyboardFilterState.window, CtrlWindow.nextDepth,
    hctrl, if_true]
  by_cases hpress : ev.value = 1
  · rw [if_pos hpress, if_neg (by omega), if_pos hpress]
    omega
  · rw [if_neg hpress, if_neg hpress]
    by_cases hrelease : ev.value = 0
    · rw [if_pos hrelease]
      by_cases hheld : 0 < s.ctrlDownCount
      · rw [if_pos ⟨hrelease, hheld⟩]
        omega
      · rw [if_neg fun h => hheld h.2]
        omega
    · rw [if_neg fun h => hrelease h.1, if_neg hrelease]
      omega

theorem not_isCtrlCPress_of_isCtrlEvent {ev : Event} (h : ev.isCtrlEvent = true) :
    ev.isCtrlCPress = false := by
  simp only [Event.isCtrlEvent, Event.isCtrlKey, Bool.and_eq_true, Bool.or_eq_true,
    beq_iff_eq] at h
  obtain ⟨-, hcode | hcode⟩ := h
  · simp [Event.isCtrlCPress, hcode]
  · simp [Event.isCtrlCPress, hcode]

/-- A Ctrl key event: buffered, or the close of the window it is buffered in. -/
private theorem filterStep_ctrl {mode : KeyboardCtrlCFilterMode} {s : KeyboardFilterState}
    {ev : Event} (hmode : mode ≠ .off) (hs : s.Sound) (hctrl : ev.isCtrlEvent = true) :
    FilterStep mode s ev (processKeyboardEventWithCtrlFilter ev mode s).1
      (processKeyboardEventWithCtrlFilter ev mode s).2 := by
  have htype : ev.type = evKey ∧ ev.isCtrlKey = true := by
    simpa only [Event.isCtrlEvent, Bool.and_eq_true, beq_iff_eq] using hctrl
  obtain ⟨hnonneg, hdepth⟩ := bufferCtrl_count hs hctrl
  have hnotC := not_isCtrlCPress_of_isCtrlEvent hctrl
  have hpress : (s.bufferCtrl ev).sawCtrlC = true →
      ∃ e ∈ (s.bufferCtrl ev).pendingEvents, e.isCtrlCPress = true := by
    intro hsaw
    obtain ⟨e, he, hc⟩ := hs.saw_pending hsaw
    exact ⟨e, List.mem_append_left _ he, hc⟩
  have hemit := KeyboardFilterState.emitPending_spec mode hmode hpress
  have hcloses : s.window.closes ev = true ↔
      ev.value = 0 ∧ (s.bufferCtrl ev).ctrlDownCount = 0 := by
    simp only [CtrlWindow.closes, hctrl, if_true, Bool.and_eq_true, beq_iff_eq,
      decide_eq_true_eq]
    constructor
    · rintro ⟨hvalue, hle⟩
      refine ⟨hvalue, ?_⟩
      rw [CtrlWindow.nextDepth_release hctrl hvalue] at hdepth
      omega
    · rintro ⟨hvalue, hzero⟩
      refine ⟨hvalue, ?_⟩
      rw [CtrlWindow.nextDepth_release hctrl hvalue, hzero] at hdepth
      omega
  rw [processKeyboardEventWithCtrlFilter, if_neg hmode, if_pos htype.1, if_pos htype.2]
  by_cases hclose : ev.value = 0 ∧ (s.bufferCtrl ev).ctrlDownCount = 0
  · have hc := hcloses.mpr hclose
    simp only [if_pos hclose]
    refine ⟨⟨hnonneg, nofun, nofun⟩, ?_, fun h => ?_, fun _ => rfl, fun _ => hemit.1,
      fun _ => hemit.2.1, fun _ => hemit.2.2⟩
    · rw [CtrlWindow.next_of_closes hc]
      simp only [KeyboardFilterState.window, KeyboardFilterState.cleared, hclose.2]
      rfl
    · rw [hc] at h
      exact Bool.noConfusion h
  · have hc : s.window.closes ev = false := Bool.eq_false_iff.mpr fun h => hclose (hcloses.mp h)
    have hne (h : s.window.closes ev = true) : False := by
      rw [hc] at h
      exact Bool.noConfusion h
    simp only [if_neg hclose]
    refine ⟨⟨hnonneg, fun hsaw => ?_, hpress⟩, ?_, fun _ => ⟨rfl, rfl⟩, fun h => (hne h).elim,
      fun h => (hne h).elim, fun h => (hne h).elim, fun h => (hne h).elim⟩
    · have hheld := hs.saw_held hsaw
      by_contra hzero
      have hcount : (s.bufferCtrl ev).ctrlDownCount = 0 := by omega
      refine hclose ⟨?_, hcount⟩
      by_contra hvalue
      simp only [KeyboardFilterState.bufferCtrl, hvalue, false_and, if_false] at hcount
      split at hcount <;> omega
    · rw [CtrlWindow.next_of_not_closes hc, ← hdepth, hnotC, Bool.or_false]
      simp [KeyboardFilterState.window, KeyboardFilterState.bufferCtrl]

/-- Every other event is buffered while a Ctrl key is held and passed through otherwise. -/
private theorem process_of_not_ctrl {mode : KeyboardCtrlCFilterMode} {s : KeyboardFilterState}
    {ev : Event} (hmode : mode ≠ .off) (hctrl : ev.isCtrlEvent = false) :
    processKeyboardEventWithCtrlFilter ev mode s =
      if 0 < s.ctrlDownCount then
        ({ s with
            pendingEvents := s.pendingEvents ++ [ev]
            sawCtrlC := s.sawCtrlC || ev.isCtrlCPress }, [])
      else s.passThrough mode ev := by
  rw [processKeyboardEventWithCtrlFilter, if_neg hmode]
  by_cases htype : ev.type = evKey
  · have hkey : ¬ ev.isCtrlKey = true := by
      simpa [Event.isCtrlEvent, htype] using hctrl
    have hpress : ev.isCtrlCPress = (ev.code == keyC && (ev.value == 1 || ev.value == 2)) := by
      simp [Event.isCtrlCPress, htype]
    rw [if_pos htype, if_neg hkey, hpress]
  · have hpress : ev.isCtrlCPress = false := by
      simp [Event.isCtrlCPress, htype]
    rw [if_neg htype, hpress, Bool.or_false]

/-- Outside every held window the event comes out behind the whole buffer. -/
private theorem passThrough_eq {mode : KeyboardCtrlCFilterMode} {s : KeyboardFilterState}
    (ev : Event) (hs : s.Sound) (hcount : s.ctrlDownCount = 0) :
    s.passThrough mode ev = (⟨0, false, []⟩, s.pendingEvents ++ [ev]) := by
  obtain ⟨count, saw, pending⟩ := s
  have hsaw : saw = false := by
    cases saw with
    | false => rfl
    | true =>
      have hheld : 0 < count := hs.saw_held rfl
      have hzero : count = 0 := hcount
      omega
  subst hsaw
  obtain rfl : count = 0 := hcount
  cases pending with
  | nil => rfl
  | cons e pending => rfl

private theorem filterStep_other {mode : KeyboardCtrlCFilterMode} {s : KeyboardFilterState}
    {ev : Event} (hmode : mode ≠ .off) (hs : s.Sound) (hctrl : ev.isCtrlEvent = false) :
    FilterStep mode s ev (processKeyboardEventWithCtrlFilter ev mode s).1
      (processKeyboardEventWithCtrlFilter ev mode s).2 := by
  have hcloses : s.window.closes ev = (s.ctrlDownCount.toNat == 0) := by
    simp only [CtrlWindow.closes, hctrl, Bool.false_eq_true, if_false, KeyboardFilterState.window]
  have hdepth : s.window.nextDepth ev = s.ctrlDownCount.toNat := by
    simp only [CtrlWindow.nextDepth, hctrl, Bool.false_eq_true, if_false,
      KeyboardFilterState.window]
  rw [process_of_not_ctrl hmode hctrl]
  have hnonneg := hs.count_nonneg
  by_cases hheld : 0 < s.ctrlDownCount
  · have hc : s.window.closes ev = false := by
      rw [hcloses, beq_eq_false_iff_ne]
      omega
    have hne (h : s.window.closes ev = true) : False := by
      rw [hc] at h
      exact Bool.noConfusion h
    rw [if_pos hheld]
    refine ⟨⟨hnonneg, fun _ => hheld, fun hsaw => ?_⟩, ?_, fun _ => ⟨rfl, rfl⟩,
      fun h => (hne h).elim, fun h => (hne h).elim, fun h => (hne h).elim, fun h => (hne h).elim⟩
    · rcases Bool.or_eq_true_iff.mp hsaw with hsaw | hpress
      · obtain ⟨e, he, hpress⟩ := hs.saw_pending hsaw
        exact ⟨e, List.mem_append_left _ he, hpress⟩
      · exact ⟨ev, List.mem_append_right _ (List.mem_singleton.mpr rfl), hpress⟩
    · rw [CtrlWindow.next_of_not_closes hc, hdepth]
      simp [KeyboardFilterState.window]
  · have hzero : s.ctrlDownCount = 0 := by omega
    have hc : s.window.closes ev = true := by
      rw [hcloses, hzero]
      rfl
    rw [if_neg hheld, passThrough_eq ev hs hzero]
    refine ⟨⟨le_refl _, nofun, nofun⟩, ?_, fun h => ?_, fun _ => rfl,
      fun _ => List.prefix_rfl, fun _ hdrop => ?_, fun _ _ => rfl⟩
    · rw [CtrlWindow.next_of_closes hc]
      rfl
    · rw [hc] at h
      exact Bool.noConfusion h
    · have hsaw : s.sawCtrlC = true := (Bool.and_eq_true_iff.mp hdrop).2
      exact absurd (hs.saw_held hsaw) hheld

/-- The specification of the filter on one event. -/
theorem filterStep {mode : KeyboardCtrlCFilterMode} {s : KeyboardFilterState} (ev : Event)
    (hmode : mode ≠ .off) (hs : s.Sound) :
    FilterStep mode s ev (processKeyboardEventWithCtrlFilter ev mode s).1
      (processKeyboardEventWithCtrlFilter ev mode s).2 := by
  cases hctrl : ev.isCtrlEvent with
  | false => exact filterStep_other hmode hs hctrl
  | true => exact filterStep_ctrl hmode hs hctrl

/-- At the close of a window the decision is taken over the buffer with the closing event. -/
theorem process_emitted_of_closes {mode : KeyboardCtrlCFilterMode} {s : KeyboardFilterState}
    {ev : Event} (hmode : mode ≠ .off) (hs : s.Sound) (hc : s.window.closes ev = true) :
    (processKeyboardEventWithCtrlFilter ev mode s).2 =
      KeyboardFilterState.emitPending mode
        { s with pendingEvents := s.pendingEvents ++ [ev] } := by
  cases hctrl : ev.isCtrlEvent with
  | true =>
    have htype : ev.type = evKey ∧ ev.isCtrlKey = true := by
      simpa only [Event.isCtrlEvent, Bool.and_eq_true, beq_iff_eq] using hctrl
    obtain ⟨hnonneg, hdepth⟩ := bufferCtrl_count hs hctrl
    simp only [CtrlWindow.closes, hctrl, if_true, Bool.and_eq_true, beq_iff_eq,
      decide_eq_true_eq] at hc
    rw [CtrlWindow.nextDepth_release hctrl hc.1] at hdepth
    rw [processKeyboardEventWithCtrlFilter, if_neg hmode, if_pos htype.1, if_pos htype.2]
    simp only [if_pos (show ev.value = 0 ∧ (s.bufferCtrl ev).ctrlDownCount = 0 from
      ⟨hc.1, by omega⟩)]
    rfl
  | false =>
    have hnonneg := hs.count_nonneg
    simp only [CtrlWindow.closes, hctrl, Bool.false_eq_true, if_false, beq_iff_eq,
      KeyboardFilterState.window] at hc
    have hzero : s.ctrlDownCount = 0 := by omega
    have hsaw : s.sawCtrlC = false := by
      apply Bool.eq_false_iff.mpr
      intro hsaw
      have := hs.saw_held hsaw
      omega
    rw [process_of_not_ctrl hmode hctrl, if_neg (by omega), passThrough_eq ev hs hzero,
      KeyboardFilterState.emitPending, hsaw]
    rfl

/-- At the end of the stream the buffer comes out unless a Ctrl key is still held. -/
theorem flushKeyboardEventFilter_emitted {mode : KeyboardCtrlCFilterMode}
    {s : KeyboardFilterState} (hmode : mode ≠ .off) (hs : s.Sound) :
    (flushKeyboardEventFilter mode s).2 = if 0 < s.window.depth then [] else s.pendingEvents := by
  have hnonneg := hs.count_nonneg
  have hdepth : s.window.depth = s.ctrlDownCount.toNat := rfl
  rw [flushKeyboardEventFilter, if_neg hmode, hdepth]
  by_cases hzero : s.ctrlDownCount = 0
  · have hsaw : s.sawCtrlC = false := by
      apply Bool.eq_false_iff.mpr
      intro hsaw
      have := hs.saw_held hsaw
      omega
    have hemit : s.emitPending mode = s.pendingEvents := by
      rw [KeyboardFilterState.emitPending, hsaw]
      rfl
    have hheld : ¬ 0 < s.ctrlDownCount.toNat := by omega
    rw [if_neg (not_not.mpr hzero), if_neg hheld, hemit]
    cases s.pendingEvents with
    | nil => rfl
    | cons e pending => rfl
  · rw [if_pos hzero, if_pos (by omega)]

end Evrp
