import Evrp.Sdk.KeyboardWindow
import Evrp.Server.Record

/-!
# Event order across devices

Keyboard events wait in the filter's buffer until their Ctrl window closes, while
the events of every other device are written at once. A foreign event read inside
a window is therefore written before the window's own events, unless the window
is dropped. This is the only way in which the recorder can change the order: the
written events are a subsequence of those read exactly when every window with a
foreign event in it is dropped.
-/

namespace Evrp

namespace Record

/-- What one event sends to the output: itself, or what the filter emits. -/
def route (mode : KeyboardCtrlCFilterMode) (s : KeyboardFilterState) (ine : InputEvent) :
    KeyboardFilterState × List InputEvent :=
  if ine.device = .keyboard ∧ mode ≠ .off then
    let filtered := processKeyboardEventWithCtrlFilter ine.toEvent mode s
    (filtered.1, filtered.2.map (Event.toInputEvent .keyboard))
  else (s, [ine])

/-- What the final flush sends to the output. -/
def flushed (mode : KeyboardCtrlCFilterMode) (s : KeyboardFilterState) : List InputEvent :=
  if mode ≠ .off then
    (flushKeyboardEventFilter mode s).2.map (Event.toInputEvent .keyboard)
  else []

/-- The events that come out for a list of events read, with or without the final flush. -/
def emitAll (mode : KeyboardCtrlCFilterMode) (final : Bool) :
    KeyboardFilterState → List InputEvent → List InputEvent
  | s, [] => if final then flushed mode s else []
  | s, ine :: rest => (route mode s ine).2 ++ emitAll mode final (route mode s ine).1 rest

/-- Nothing of the open window is ever written: it is closed as a chord in full mode, or a
Ctrl key is still held when the stream ends. -/
def WindowDropped (mode : KeyboardCtrlCFilterMode) : CtrlWindow → List InputEvent → Prop
  | w, [] => 0 < w.depth
  | w, ine :: rest =>
    if ine.device = .keyboard then
      if w.closes ine.toEvent then w.dropped mode = true
      else WindowDropped mode (w.next ine.toEvent) rest
    else WindowDropped mode w rest

/-- Every foreign event inside a window belongs to a window of which nothing is written. -/
def WindowsUndisturbed (mode : KeyboardCtrlCFilterMode) : CtrlWindow → List InputEvent → Prop
  | _, [] => True
  | w, ine :: rest =>
    if ine.device = .keyboard then WindowsUndisturbed mode (w.next ine.toEvent) rest
    else (w.isOpen = true → WindowDropped mode w rest) ∧ WindowsUndisturbed mode w rest

instance decidableWindowDropped (mode : KeyboardCtrlCFilterMode) :
    (w : CtrlWindow) → (reads : List InputEvent) → Decidable (WindowDropped mode w reads)
  | w, [] => inferInstanceAs (Decidable (0 < w.depth))
  | w, ine :: rest =>
    have := decidableWindowDropped mode (w.next ine.toEvent) rest
    have := decidableWindowDropped mode w rest
    inferInstanceAs (Decidable (if ine.device = .keyboard then
      if w.closes ine.toEvent then w.dropped mode = true
      else WindowDropped mode (w.next ine.toEvent) rest
    else WindowDropped mode w rest))

instance decidableWindowsUndisturbed (mode : KeyboardCtrlCFilterMode) :
    (w : CtrlWindow) → (reads : List InputEvent) → Decidable (WindowsUndisturbed mode w reads)
  | _, [] => inferInstanceAs (Decidable True)
  | w, ine :: rest =>
    have := decidableWindowsUndisturbed mode (w.next ine.toEvent) rest
    have := decidableWindowsUndisturbed mode w rest
    inferInstanceAs (Decidable (if ine.device = .keyboard then
      WindowsUndisturbed mode (w.next ine.toEvent) rest
    else (w.isOpen = true → WindowDropped mode w rest) ∧ WindowsUndisturbed mode w rest))

/-- The condition on the events read under which the recorder keeps their order. -/
def OrderKept (mode : KeyboardCtrlCFilterMode) (reads : List InputEvent) : Prop :=
  mode = .off ∨ WindowsUndisturbed mode .shut reads

instance (mode : KeyboardCtrlCFilterMode) (reads : List InputEvent) :
    Decidable (OrderKept mode reads) := inferInstanceAs (Decidable (_ ∨ _))

/-- The events of all batches. -/
def polledEvents (polls : List (Option (List InputEvent))) : List InputEvent :=
  polls.flatMap fun poll => poll.getD []

/-- The buffered events, as they were read. -/
def buffered (s : KeyboardFilterState) : List InputEvent :=
  s.pendingEvents.map (Event.toInputEvent .keyboard)

theorem route_keyboard {mode : KeyboardCtrlCFilterMode} (hmode : mode ≠ .off)
    (s : KeyboardFilterState) {ine : InputEvent} (hk : ine.device = .keyboard) :
    route mode s ine = ((processKeyboardEventWithCtrlFilter ine.toEvent mode s).1,
      (processKeyboardEventWithCtrlFilter ine.toEvent mode s).2.map
        (Event.toInputEvent .keyboard)) := by
  rw [route, if_pos ⟨hk, hmode⟩]

theorem route_other (mode : KeyboardCtrlCFilterMode) (s : KeyboardFilterState)
    {ine : InputEvent} (hk : ine.device ≠ .keyboard) : route mode s ine = (s, [ine]) := by
  rw [route, if_neg fun h => hk h.1]

private theorem buffered_eq_nil {s : KeyboardFilterState} (h : s.pendingEvents = []) :
    buffered s = [] := by
  rw [buffered, h, List.map_nil]

/-- One keyboard event as the recorder sees it, with the buffer in terms of what was read. -/
private theorem route_step {mode : KeyboardCtrlCFilterMode} (hmode : mode ≠ .off)
    {s : KeyboardFilterState} (hs : s.Sound) {ine : InputEvent} (hk : ine.device = .keyboard)
    (he : ine.FromEvdev) :
    (route mode s ine).1.Sound ∧ (route mode s ine).1.window = s.window.next ine.toEvent ∧
      (s.window.closes ine.toEvent = false →
        buffered (route mode s ine).1 = buffered s ++ [ine] ∧ (route mode s ine).2 = []) ∧
      (s.window.closes ine.toEvent = true →
        buffered (route mode s ine).1 = [] ∧
        (route mode s ine).2.Sublist (buffered s ++ [ine]) ∧
        (s.window.dropped mode = true → (route mode s ine).2 = []) ∧
        (s.window.dropped mode = false →
          (route mode s ine).2.head? = (buffered s ++ [ine]).head?)) := by
  have hstep := filterStep ine.toEvent hmode hs
  have hwhole : (s.pendingEvents ++ [ine.toEvent]).map (Event.toInputEvent .keyboard) =
      buffered s ++ [ine] := by
    have hine := InputEvent.toInputEvent_toEvent he
    rw [hk] at hine
    rw [List.map_append, List.map_singleton, hine]
    rfl
  rw [route_keyboard hmode s hk]
  refine ⟨hstep.sound, hstep.window, fun hc => ?_, fun hc => ?_⟩
  · obtain ⟨hpending, hout⟩ := hstep.inside hc
    exact ⟨by rw [buffered, hpending, hwhole], by rw [hout, List.map_nil]⟩
  · refine ⟨buffered_eq_nil (hstep.emptied hc), ?_, fun hd => ?_, fun hd => ?_⟩
    · rw [← hwhole]
      exact (hstep.beginning hc).sublist.map _
    · rw [hstep.silent hc hd, List.map_nil]
    · rw [← hwhole, List.head?_map, List.head?_map, hstep.first hc hd]

private theorem flushed_eq {mode : KeyboardCtrlCFilterMode} (hmode : mode ≠ .off)
    {s : KeyboardFilterState} (hs : s.Sound) :
    flushed mode s = if 0 < s.window.depth then [] else buffered s := by
  rw [flushed, if_pos hmode, flushKeyboardEventFilter_emitted hmode hs]
  split
  · rfl
  · rfl

private theorem windowDropped_keyboard {mode : KeyboardCtrlCFilterMode} {w : CtrlWindow}
    {ine : InputEvent} {rest : List InputEvent} (hk : ine.device = .keyboard) :
    WindowDropped mode w (ine :: rest) ↔
      if w.closes ine.toEvent then w.dropped mode = true
      else WindowDropped mode (w.next ine.toEvent) rest := by
  rw [WindowDropped, if_pos hk]

private theorem windowDropped_other {mode : KeyboardCtrlCFilterMode} {w : CtrlWindow}
    {ine : InputEvent} {rest : List InputEvent} (hk : ine.device ≠ .keyboard) :
    WindowDropped mode w (ine :: rest) ↔ WindowDropped mode w rest := by
  rw [WindowDropped, if_neg hk]

private theorem isOpen_window {s : KeyboardFilterState} :
    s.window.isOpen = true ↔ buffered s ≠ [] := by
  simp only [KeyboardFilterState.window, buffered, Bool.not_eq_true', ne_eq, List.map_eq_nil_iff,
    List.isEmpty_eq_false_iff]

/-- Undisturbed windows come out in order behind what is buffered, and of a dropped window
nothing comes out. -/
private theorem emitAll_sublist {mode : KeyboardCtrlCFilterMode} (hmode : mode ≠ .off)
    {final : Bool} {reads later : List InputEvent} (hfinal : final = true → later = [])
    (hevdev : ∀ e ∈ reads, e.FromEvdev) {s : KeyboardFilterState} (hs : s.Sound)
    (h : WindowsUndisturbed mode s.window (reads ++ later)) :
    (emitAll mode final s reads).Sublist (buffered s ++ reads) ∧
      (WindowDropped mode s.window (reads ++ later) →
        (emitAll mode final s reads).Sublist reads) := by
  -- both facts together: a dropped window is left into a state that is undisturbed again
  induction reads generalizing s with
  | nil =>
    cases final with
    | false => exact ⟨List.nil_sublist _, fun _ => List.nil_sublist _⟩
    | true =>
      obtain rfl := hfinal rfl
      rw [emitAll, if_pos rfl, flushed_eq hmode hs, List.append_nil]
      constructor
      · split
        · exact List.nil_sublist _
        · exact List.Sublist.refl _
      · intro hdropped
        rw [if_pos (show 0 < s.window.depth from hdropped)]
  | cons ine rest ih =>
    have hrest : ∀ e ∈ rest, e.FromEvdev := fun e he => hevdev e (List.mem_cons_of_mem _ he)
    rw [emitAll, List.cons_append]
    rw [List.cons_append, WindowsUndisturbed] at h
    by_cases hk : ine.device = .keyboard
    · obtain ⟨hsound, hwindow, hinside, hclosed⟩ :=
        route_step hmode hs hk (hevdev ine (List.mem_cons_self ..))
      rw [if_pos hk, ← hwindow] at h
      obtain ⟨hall, hnone⟩ := ih hrest hsound h
      rw [windowDropped_keyboard hk, ← hwindow]
      cases hc : s.window.closes ine.toEvent with
      | false =>
        obtain ⟨hbuffer, hout⟩ := hinside hc
        rw [hout, List.nil_append, if_neg Bool.false_ne_true]
        rw [hbuffer, List.append_assoc] at hall
        exact ⟨hall, fun hdropped => (hnone hdropped).cons ine⟩
      | true =>
        obtain ⟨hbuffer, hout, hsilent, -⟩ := hclosed hc
        rw [hbuffer, List.nil_append] at hall
        rw [if_pos rfl]
        constructor
        · have hboth := hout.append hall
          rw [List.append_assoc] at hboth
          exact hboth
        · intro hdropped
          rw [hsilent hdropped, List.nil_append]
          exact hall.cons ine
    · rw [if_neg hk] at h
      obtain ⟨hopen, hundisturbed⟩ := h
      obtain ⟨hall, hnone⟩ := ih hrest hs hundisturbed
      rw [route_other mode s hk, windowDropped_other hk]
      refine ⟨?_, fun hdropped => (hnone hdropped).cons_cons ine⟩
      by_cases hempty : buffered s = []
      · rw [hempty, List.nil_append] at hall ⊢
        exact hall.cons_cons ine
      · have hdropped := hopen (isOpen_window.mpr hempty)
        exact ((hnone hdropped).cons_cons ine).trans (List.sublist_append_right _ _)

/-- Only what was buffered or read comes out. -/
private theorem mem_emitAll {mode : KeyboardCtrlCFilterMode} (hmode : mode ≠ .off)
    {reads : List InputEvent} (hevdev : ∀ e ∈ reads, e.FromEvdev) {s : KeyboardFilterState}
    (hs : s.Sound) {x : InputEvent} (hx : x ∈ emitAll mode true s reads) :
    x ∈ buffered s ++ reads := by
  induction reads generalizing s with
  | nil =>
    rw [emitAll, if_pos rfl, flushed_eq hmode hs] at hx
    split at hx
    · exact absurd hx List.not_mem_nil
    · exact List.mem_append_left _ hx
  | cons ine rest ih =>
    have hrest : ∀ e ∈ rest, e.FromEvdev := fun e he => hevdev e (List.mem_cons_of_mem _ he)
    have hassoc : buffered s ++ ine :: rest = buffered s ++ [ine] ++ rest := by
      rw [List.append_assoc, List.singleton_append]
    rw [emitAll] at hx
    rw [hassoc]
    by_cases hk : ine.device = .keyboard
    · obtain ⟨hsound, -, hinside, hclosed⟩ :=
        route_step hmode hs hk (hevdev ine (List.mem_cons_self ..))
      cases hc : s.window.closes ine.toEvent with
      | false =>
        obtain ⟨hbuffer, hout⟩ := hinside hc
        rw [hout, List.nil_append] at hx
        rw [← hbuffer]
        exact ih hrest hsound hx
      | true =>
        obtain ⟨hbuffer, hout, -⟩ := hclosed hc
        rcases List.mem_append.mp hx with hx | hx
        · exact List.mem_append_left _ (hout.subset hx)
        · have hin := ih hrest hsound hx
          rw [hbuffer] at hin
          exact List.mem_append_right _ hin
    · rw [route_other mode s hk] at hx
      rcases List.mem_cons.mp hx with rfl | hx
      · exact List.mem_append_left _ (List.mem_append_right _ (List.mem_singleton.mpr rfl))
      · rcases List.mem_append.mp (ih hrest hs hx) with hin | hin
        · exact List.mem_append_left _ (List.mem_append_left _ hin)
        · exact List.mem_append_right _ hin

/-- Of a window that is not dropped the first event comes out. -/
private theorem head_mem_emitAll {mode : KeyboardCtrlCFilterMode} (hmode : mode ≠ .off)
    {reads : List InputEvent} (hevdev : ∀ e ∈ reads, e.FromEvdev) {s : KeyboardFilterState}
    (hs : s.Sound) {x : InputEvent} (hx : (buffered s).head? = some x)
    (h : ¬ WindowDropped mode s.window reads) : x ∈ emitAll mode true s reads := by
  induction reads generalizing s with
  | nil =>
    rw [WindowDropped] at h
    rw [emitAll, if_pos rfl, flushed_eq hmode hs, if_neg h]
    exact List.mem_of_mem_head? hx
  | cons ine rest ih =>
    have hrest : ∀ e ∈ rest, e.FromEvdev := fun e he => hevdev e (List.mem_cons_of_mem _ he)
    rw [emitAll]
    by_cases hk : ine.device = .keyboard
    · obtain ⟨hsound, hwindow, hinside, hclosed⟩ :=
        route_step hmode hs hk (hevdev ine (List.mem_cons_self ..))
      have hx' : (buffered s ++ [ine]).head? = some x := by
        rw [List.head?_append, hx, Option.some_or]
      rw [windowDropped_keyboard hk, ← hwindow] at h
      cases hc : s.window.closes ine.toEvent with
      | false =>
        rw [hc, if_neg Bool.false_ne_true] at h
        rw [← (hinside hc).1] at hx'
        exact List.mem_append_right _ (ih hrest hsound hx' h)
      | true =>
        obtain ⟨-, -, -, hfirst⟩ := hclosed hc
        rw [hc, if_pos rfl, Bool.not_eq_true] at h
        rw [← hfirst h] at hx'
        exact List.mem_append_left _ (List.mem_of_mem_head? hx')
    · rw [windowDropped_other hk] at h
      rw [route_other mode s hk]
      exact List.mem_append_right _ (ih hrest hs hx h)

private theorem sublist_of_disjoint {x a b : List InputEvent} (h : x.Sublist (a ++ b))
    (hdisjoint : ∀ e ∈ x, e ∉ a) : x.Sublist b := by
  obtain ⟨x₁, x₂, rfl, h₁, h₂⟩ := List.sublist_append_iff.mp h
  have hnil : x₁ = [] := by
    apply List.eq_nil_iff_forall_not_mem.mpr
    intro e he
    exact hdisjoint e (List.mem_append_left _ he) (h₁.subset he)
  rw [hnil, List.nil_append]
  exact h₂

/-- Distinct events that come out in order were not disturbed. -/
private theorem undisturbed_of_sublist {mode : KeyboardCtrlCFilterMode} (hmode : mode ≠ .off)
    {reads : List InputEvent} (hevdev : ∀ e ∈ reads, e.FromEvdev) {s : KeyboardFilterState}
    (hs : s.Sound) (hnodup : (buffered s ++ reads).Nodup)
    (h : (emitAll mode true s reads).Sublist (buffered s ++ reads)) :
    WindowsUndisturbed mode s.window reads := by
  induction reads generalizing s with
  | nil => trivial
  | cons ine rest ih =>
    have hrest : ∀ e ∈ rest, e.FromEvdev := fun e he => hevdev e (List.mem_cons_of_mem _ he)
    have hassoc : buffered s ++ ine :: rest = buffered s ++ [ine] ++ rest := by
      rw [List.append_assoc, List.singleton_append]
    rw [emitAll] at h
    rw [WindowsUndisturbed]
    by_cases hk : ine.device = .keyboard
    · obtain ⟨hsound, hwindow, hinside, hclosed⟩ :=
        route_step hmode hs hk (hevdev ine (List.mem_cons_self ..))
      rw [if_pos hk, ← hwindow]
      rw [hassoc] at h hnodup
      cases hc : s.window.closes ine.toEvent with
      | false =>
        obtain ⟨hbuffer, hout⟩ := hinside hc
        rw [hout, List.nil_append, ← hbuffer] at h
        rw [← hbuffer] at hnodup
        exact ih hrest hsound hnodup h
      | true =>
        obtain ⟨hbuffer, -⟩ := hclosed hc
        obtain ⟨-, hnodupRest, hdisjoint⟩ := List.nodup_append.mp hnodup
        have hlater : (emitAll mode true (route mode s ine).1 rest).Sublist rest := by
          apply sublist_of_disjoint ((List.sublist_append_right _ _).trans h)
          intro e he ha
          have hin := mem_emitAll hmode hrest hsound he
          rw [hbuffer, List.nil_append] at hin
          exact hdisjoint e ha e hin rfl
        refine ih hrest hsound ?_ ?_
        · rw [hbuffer, List.nil_append]
          exact hnodupRest
        · rw [hbuffer, List.nil_append]
          exact hlater
    · rw [if_neg hk]
      rw [route_other mode s hk, List.singleton_append] at h
      obtain ⟨hnodupBuffer, hnodupRest, hdisjoint⟩ := List.nodup_append.mp hnodup
      have hine : ine ∉ buffered s := fun hin =>
        hdisjoint ine hin ine (List.mem_cons_self ..) rfl
      have hlater : (emitAll mode true s rest).Sublist rest := by
        obtain ⟨x₁, x₂, hx, h₁, h₂⟩ := List.sublist_append_iff.mp h
        cases x₁ with
        | nil =>
          rw [List.nil_append] at hx
          rw [← hx] at h₂
          exact List.cons_sublist_cons.mp h₂
        | cons e x₁ =>
          obtain ⟨rfl, -⟩ := List.cons.inj hx
          exact absurd (h₁.subset (List.mem_cons_self ..)) hine
      constructor
      · intro hopen
        by_contra hdropped
        obtain ⟨x, hx⟩ : ∃ x, (buffered s).head? = some x := by
          obtain ⟨x, l, hl⟩ := List.exists_cons_of_ne_nil (isOpen_window.mp hopen)
          exact ⟨x, by rw [hl, List.head?_cons]⟩
        have hout := hlater.subset (head_mem_emitAll hmode hrest hs hx hdropped)
        exact hdisjoint x (List.mem_of_mem_head? hx) x (List.mem_cons_of_mem _ hout) rfl
      · refine ih hrest hs ?_ (hlater.trans (List.sublist_append_right _ _))
        refine hnodup.sublist ?_
        exact (List.sublist_cons_self ine rest).append_left _

/-- The state of the filter after a list of events. -/
def filterAfter (mode : KeyboardCtrlCFilterMode) (s : KeyboardFilterState)
    (reads : List InputEvent) : KeyboardFilterState :=
  reads.foldl (fun t ine => (route mode t ine).1) s

theorem emitAll_append (mode : KeyboardCtrlCFilterMode) (final : Bool)
    (s : KeyboardFilterState) (xs ys : List InputEvent) :
    emitAll mode final s (xs ++ ys) =
      emitAll mode false s xs ++ emitAll mode final (filterAfter mode s xs) ys := by
  induction xs generalizing s with
  | nil => rfl
  | cons x xs ih =>
    rw [List.cons_append, emitAll, emitAll, ih, List.append_assoc]
    rfl

/-- The calls made so far are those for the given events, up to a failed write. -/
structure Follows (mode : KeyboardCtrlCFilterMode) (s : RecordState)
    (events : List InputEvent) : Prop where
  lines : s.eventLines <+: emitAll mode false .initial events
  complete : s.writeOk = true → s.eventLines = emitAll mode false .initial events ∧
    s.filter = filterAfter mode .initial events

theorem Follows.of_failed {mode : KeyboardCtrlCFilterMode} {s : RecordState}
    {events : List InputEvent} (h : Follows mode s events) (hfail : ¬ s.writeOk = true)
    (more : List InputEvent) : Follows mode s (events ++ more) := by
  refine ⟨?_, fun hok => absurd hok hfail⟩
  rw [emitAll_append]
  exact h.lines.trans (List.prefix_append _ _)

/-- Both branches of the recorder are the event's route followed by the output loop. -/
theorem recordEvent_eq (mode : KeyboardCtrlCFilterMode) (env : RecordEnv) (s : RecordState)
    (ine : InputEvent) : recordEvent mode env s ine =
      writeEventLines env { s with filter := (route mode s.filter ine).1 }
        (route mode s.filter ine).2 := by
  rw [recordEvent, route]
  split
  · rfl
  · simp only [writeEventLines, ite_self]

theorem recordEvent_follows {mode : KeyboardCtrlCFilterMode} {env : RecordEnv}
    {s : RecordState} {events : List InputEvent} (hok : s.writeOk = true)
    (h : Follows mode s events) (ine : InputEvent) :
    Follows mode (recordEvent mode env s ine) (events ++ [ine]) := by
  obtain ⟨hlines, hfilter⟩ := h.complete hok
  obtain ⟨hframe, -, done, hdone, hcalls, hall⟩ := writeEventLines_frame env
    { s with filter := (route mode s.filter ine).1 } (route mode s.filter ine).2
  rw [← recordEvent_eq] at hframe hcalls hall
  have hemit : emitAll mode false .initial (events ++ [ine]) =
      s.eventLines ++ (route mode s.filter ine).2 := by
    rw [emitAll_append, ← hfilter, ← hlines]
    simp only [emitAll, Bool.false_eq_true, if_false, List.append_nil]
  have hafter : filterAfter mode .initial (events ++ [ine]) = (route mode s.filter ine).1 := by
    rw [hfilter]
    simp only [filterAfter, List.foldl_append, List.foldl_cons, List.foldl_nil]
  constructor
  · rw [hemit, hcalls]
    exact (List.prefix_append_right_inj _).mpr hdone
  · intro hwritten
    rw [hemit, hafter, hcalls, hall hwritten]
    exact ⟨rfl, hframe⟩

theorem recordBatch_follows {mode : KeyboardCtrlCFilterMode} {env : RecordEnv}
    {s : RecordState} {events : List InputEvent} (h : Follows mode s events)
    (hok : s.writeOk = true) (batch : List InputEvent) :
    Follows mode (recordBatch mode env s batch) (events ++ batch) := by
  induction batch generalizing s events with
  | nil =>
    rw [recordBatch, List.append_nil]
    exact h
  | cons ine rest ih =>
    have hrecorded : Follows mode (recordEvent mode env s ine) (events ++ [ine]) :=
      recordEvent_follows hok h ine
    have hassoc : events ++ ine :: rest = events ++ [ine] ++ rest := by
      rw [List.append_assoc, List.singleton_append]
    rw [recordBatch, hassoc]
    split
    · rename_i hok'
      exact ih hrecorded hok'
    · rename_i hfail
      exact hrecorded.of_failed hfail rest

theorem recordBatch_readEvents {mode : KeyboardCtrlCFilterMode} {env : RecordEnv}
    {s : RecordState} (batch : List InputEvent) (hok : s.writeOk = true) :
    (recordBatch mode env s batch).readEvents = s.readEvents := by
  refine recordBatch_invariant (P := fun t => t.readEvents = s.readEvents)
    (fun t f ht => ht) (fun t ine _ ht => ?_) batch hok rfl
  exact (writeEventLine_frame env t ine).2.1.trans ht

/-- The loop reads a beginning of the polled events, all of them unless a write fails. -/
theorem recordLoop_follows {mode : KeyboardCtrlCFilterMode} (env : RecordEnv)
    {s : RecordState} (h : Follows mode s s.readEvents)
    (polls : List (Option (List InputEvent))) :
    Follows mode (recordLoop mode env s polls) (recordLoop mode env s polls).readEvents ∧
      ∃ later, s.readEvents ++ polledEvents polls =
          (recordLoop mode env s polls).readEvents ++ later ∧
        ((recordLoop mode env s polls).writeOk = true → later = []) := by
  induction polls generalizing s with
  | nil => exact ⟨h, [], rfl, fun _ => rfl⟩
  | cons poll polls ih =>
    by_cases hok : s.writeOk = true
    · cases poll with
      | none =>
        rw [recordLoop, if_pos hok]
        exact ih h
      | some batch =>
        have hread : Follows mode { s with readEvents := s.readEvents ++ batch } s.readEvents :=
          ⟨h.lines, h.complete⟩
        have hbatch : Follows mode (recordBatch mode env
            { s with readEvents := s.readEvents ++ batch } batch) (s.readEvents ++ batch) :=
          recordBatch_follows hread hok batch
        have hreads : (recordBatch mode env { s with readEvents := s.readEvents ++ batch }
            batch).readEvents = s.readEvents ++ batch := recordBatch_readEvents batch hok
        have hpolled : s.readEvents ++ polledEvents (some batch :: polls) =
            s.readEvents ++ batch ++ polledEvents polls := by
          rw [List.append_assoc]
          rfl
        rw [recordLoop, if_pos hok, hpolled]
        simp only
        generalize recordBatch mode env { s with readEvents := s.readEvents ++ batch } batch = t
          at hbatch hreads ⊢
        rw [← hreads] at hbatch ⊢
        exact ih hbatch
    · have hstop : recordLoop mode env s (poll :: polls) = s := by
        cases poll with
        | none => rw [recordLoop, if_neg hok]
        | some batch => rw [recordLoop, if_neg hok]
      rw [hstop]
      exact ⟨h, polledEvents (poll :: polls), rfl, fun hwritten => absurd hwritten hok⟩

theorem writeTrailing_frame (env : RecordEnv) (s : RecordState) :
    (writeTrailing env s).readEvents = s.readEvents ∧
      (writeTrailing env s).eventLines = s.eventLines := by
  unfold writeTrailing
  split
  · simp only
    split
    · obtain ⟨file, ok, hline⟩ := writeLine_frame { s with clockReads := s.clockReads + 1 }
        (formatTrailingLine
          (Word.wrap 64 ((env.gettimeofday s.clockReads).us - s.lastClientEventUs)))
      rw [hline]
      exact ⟨rfl, rfl⟩
    · exact ⟨rfl, rfl⟩
  · exact ⟨rfl, rfl⟩

private theorem emitAll_final (mode : KeyboardCtrlCFilterMode) (reads : List InputEvent) :
    emitAll mode true .initial reads =
      emitAll mode false .initial reads ++ flushed mode (filterAfter mode .initial reads) := by
  have happend := emitAll_append mode true .initial reads []
  rw [List.append_nil] at happend
  exact happend

theorem emitAll_off (final : Bool) (s : KeyboardFilterState) (reads : List InputEvent) :
    emitAll .off final s reads = reads := by
  induction reads generalizing s with
  | nil => cases final <;> rfl
  | cons ine rest ih =>
    have hroute : route .off s ine = (s, [ine]) := by
      rw [route, if_neg fun h => h.2 rfl]
    rw [emitAll, hroute, ih, List.singleton_append]

/-- The final flush continues the calls with what the filter still emits. -/
private theorem recordFlush_lines (mode : KeyboardCtrlCFilterMode) (env : RecordEnv)
    {s : RecordState} (hok : s.writeOk = true) :
    (recordFlush mode env s).readEvents = s.readEvents ∧
      ∃ done, done <+: flushed mode s.filter ∧
        (recordFlush mode env s).eventLines = s.eventLines ++ done ∧
        ((recordFlush mode env s).writeOk = true → done = flushed mode s.filter) := by
  by_cases hmode : mode = .off
  · have hskip : recordFlush mode env s = s := by
      rw [recordFlush, if_neg fun h => h.2 hmode]
    have hnone : flushed mode s.filter = [] := by
      rw [flushed, if_neg (not_not.mpr hmode)]
    rw [hskip, hnone]
    exact ⟨rfl, [], List.prefix_rfl, (List.append_nil _).symm, fun _ => rfl⟩
  · rw [recordFlush, if_pos ⟨hok, hmode⟩, flushed, if_pos hmode]
    exact (writeEventLines_frame env _ _).2

/-- The calls of a session are a beginning of what comes out for the events it read; the
final flush belongs to it only if everything was read. -/
theorem session_lines (mode : KeyboardCtrlCFilterMode) (env : RecordEnv)
    (polls : List (Option (List InputEvent))) :
    ∃ final later, polledEvents polls = (session mode env polls).readEvents ++ later ∧
      (final = true → later = []) ∧
      (session mode env polls).eventLines <+:
        emitAll mode final .initial (session mode env polls).readEvents := by
  have hstart : Follows mode (.initial env) (RecordState.initial env).readEvents :=
    ⟨List.prefix_rfl, fun _ => ⟨rfl, rfl⟩⟩
  obtain ⟨hloop, later, hlater, hall⟩ := recordLoop_follows env hstart polls
  obtain ⟨hreads, hcalls⟩ := writeTrailing_frame env
    (recordFlush mode env (recordLoop mode env (.initial env) polls))
  rw [session, hreads, hcalls]
  by_cases hok : (recordLoop mode env (.initial env) polls).writeOk = true
  · obtain ⟨hsame, done, hdone, hlines, -⟩ := recordFlush_lines mode env hok
    obtain ⟨hbegin, hfilter⟩ := hloop.complete hok
    refine ⟨true, later, by rw [hsame]; exact hlater, fun _ => hall hok, ?_⟩
    rw [hsame, hlines, emitAll_final, ← hbegin, ← hfilter]
    exact (List.prefix_append_right_inj _).mpr hdone
  · have hskip : recordFlush mode env (recordLoop mode env (.initial env) polls) =
        recordLoop mode env (.initial env) polls := by
      rw [recordFlush, if_neg fun h => hok h.1]
    rw [hskip]
    exact ⟨false, later, hlater, nofun, hloop.lines⟩

/-- When all writes succeed the whole stream is read and all that comes out is written. -/
theorem session_flawless (mode : KeyboardCtrlCFilterMode) {env : RecordEnv}
    (henv : env.answers = []) (polls : List (Option (List InputEvent))) :
    (session mode env polls).readEvents = polledEvents polls ∧
      (session mode env polls).eventLines =
        emitAll mode true .initial (polledEvents polls) := by
  have hstart : Flawless (.initial env) := ⟨rfl, henv⟩
  have hloopOk : Flawless (recordLoop mode env (.initial env) polls) :=
    recordLoop_invariant (P := Flawless) (fun _ _ h => h) (fun _ _ h => h)
      (fun _ ine _ h => writeEventLine_flawless h ine) polls hstart
  have hflushOk : Flawless (recordFlush mode env (recordLoop mode env (.initial env) polls)) :=
    recordFlush_invariant (P := Flawless) (fun _ _ h => h) (fun _ _ h => h)
      (fun _ ine _ h => writeEventLine_flawless h ine) polls hstart
  have hbegin : Follows mode (.initial env) (RecordState.initial env).readEvents :=
    ⟨List.prefix_rfl, fun _ => ⟨rfl, rfl⟩⟩
  obtain ⟨hloop, later, hlater, hall⟩ := recordLoop_follows env hbegin polls
  obtain ⟨hlines, hfilter⟩ := hloop.complete hloopOk.1
  obtain ⟨hsame, done, -, hcalls, hdone⟩ := recordFlush_lines mode env hloopOk.1
  obtain ⟨hreads, htrailing⟩ := writeTrailing_frame env
    (recordFlush mode env (recordLoop mode env (.initial env) polls))
  have hpolled : polledEvents polls =
      (recordLoop mode env (.initial env) polls).readEvents := by
    rw [hall hloopOk.1, List.append_nil] at hlater
    exact hlater
  rw [session, hreads, htrailing, hsame, hcalls, hdone hflushOk.1, hpolled, emitAll_final,
    ← hlines, ← hfilter]
  exact ⟨rfl, rfl⟩

/-- A session whose writes all succeed reads the whole stream and writes all that comes out. -/
theorem session_complete {mode : KeyboardCtrlCFilterMode} {env : RecordEnv}
    {polls : List (Option (List InputEvent))} (h : (session mode env polls).writeOk = true) :
    (session mode env polls).eventLines = emitAll mode true .initial (polledEvents polls) := by
  have hflush : (recordFlush mode env (recordLoop mode env (.initial env) polls)).writeOk =
      true := by
    unfold session writeTrailing at h
    split at h
    · rename_i hboth
      exact hboth.1
    · exact h
  have hloop : (recordLoop mode env (.initial env) polls).writeOk = true := by
    by_contra hfailed
    rw [recordFlush, if_neg fun hboth => hfailed hboth.1] at hflush
    exact hfailed hflush
  have hbegin : Follows mode (.initial env) (RecordState.initial env).readEvents :=
    ⟨List.prefix_rfl, fun _ => ⟨rfl, rfl⟩⟩
  obtain ⟨hfollows, later, hlater, hall⟩ := recordLoop_follows env hbegin polls
  obtain ⟨hlines, hfilter⟩ := hfollows.complete hloop
  obtain ⟨-, done, -, hcalls, hdone⟩ := recordFlush_lines mode env hloop
  obtain ⟨-, htrailing⟩ := writeTrailing_frame env
    (recordFlush mode env (recordLoop mode env (.initial env) polls))
  have hpolled : polledEvents polls = (recordLoop mode env (.initial env) polls).readEvents := by
    rw [hall hloop, List.append_nil] at hlater
    exact hlater
  rw [session, htrailing, hcalls, hdone hflush, hpolled, emitAll_final, ← hlines, ← hfilter]

/-- Only what was read is recorded. -/
theorem mem_of_mem_recorded {mode : KeyboardCtrlCFilterMode} {reads : List InputEvent}
    (hevdev : ∀ e ∈ reads, e.FromEvdev) {x : InputEvent}
    (hx : x ∈ emitAll mode true .initial reads) : x ∈ reads := by
  by_cases hmode : mode = .off
  · rw [hmode, emitAll_off] at hx
    exact hx
  · exact mem_emitAll hmode hevdev KeyboardFilterState.sound_initial hx

theorem run_eventLines_reliableEnv (mode : KeyboardCtrlCFilterMode)
    (gettimeofday : ℕ → Timeval) (polls : List (Option (List InputEvent))) :
    (run mode (reliableEnv gettimeofday) polls).2.readEvents = polledEvents polls ∧
      (run mode (reliableEnv gettimeofday) polls).2.eventLines =
        emitAll mode true .initial (polledEvents polls) := by
  rw [run_reliableEnv]
  exact session_flawless mode rfl polls

/-- The recorder keeps the order of events across devices if, and for distinct events only
if, every Ctrl window with a foreign event in it is dropped. -/
theorem run_eventLines_sublist_iff (mode : KeyboardCtrlCFilterMode)
    (polls : List (Option (List InputEvent)))
    (hevdev : ∀ e ∈ polledEvents polls, e.FromEvdev) :
    (OrderKept mode (polledEvents polls) →
      ∀ env, (run mode env polls).2.eventLines.Sublist (run mode env polls).2.readEvents) ∧
    ((polledEvents polls).Nodup →
      (∀ env, (run mode env polls).2.eventLines.Sublist (run mode env polls).2.readEvents) →
      OrderKept mode (polledEvents polls)) := by
  constructor
  · intro hkept env
    rcases run_state mode env polls with hrun | hrun
    · rw [hrun]
      exact List.Sublist.refl _
    · obtain ⟨final, later, hlater, hfinal, hbegin⟩ := session_lines mode env polls
      rw [hrun]
      apply hbegin.sublist.trans
      rw [hlater] at hkept hevdev
      rcases hkept with rfl | hkept
      · rw [emitAll_off]
      · by_cases hmode : mode = .off
        · rw [hmode, emitAll_off]
        · have hreads : ∀ e ∈ (session mode env polls).readEvents, e.FromEvdev := fun e he =>
            hevdev e (List.mem_append_left _ he)
          exact (emitAll_sublist hmode hfinal hreads KeyboardFilterState.sound_initial hkept).1
  · intro hnodup hall
    by_cases hmode : mode = .off
    · exact Or.inl hmode
    · obtain ⟨hreads, hlines⟩ := run_eventLines_reliableEnv mode (fun _ => ⟨0, 0⟩) polls
      have hsub := hall (reliableEnv fun _ => ⟨0, 0⟩)
      rw [hreads, hlines] at hsub
      exact Or.inr (undisturbed_of_sublist hmode hevdev KeyboardFilterState.sound_initial
        hnodup hsub)

/-- A mouse movement between the press and the release of a Ctrl key. -/
def mouseInCtrlWindow : List InputEvent :=
  [⟨.keyboard, 0, 0, evKey, keyLeftctrl, 1⟩, ⟨.mouse, 0, 1, evRel, relX, 5⟩,
    ⟨.keyboard, 0, 2, evKey, keyLeftctrl, 0⟩]

/-- The movement is written before the press it was read after. -/
theorem run_reorders_mouseInCtrlWindow :
    (∀ e ∈ polledEvents [some mouseInCtrlWindow], e.FromEvdev) ∧
      ¬ (run .endingOnly (reliableEnv fun _ => ⟨0, 0⟩)
          [some mouseInCtrlWindow]).2.eventLines.Sublist
        (run .endingOnly (reliableEnv fun _ => ⟨0, 0⟩)
          [some mouseInCtrlWindow]).2.readEvents := by
  obtain ⟨hreads, hlines⟩ := run_eventLines_reliableEnv .endingOnly (fun _ => ⟨0, 0⟩)
    [some mouseInCtrlWindow]
  rw [hreads, hlines]
  decide

/-- A chord that full mode drops may contain mouse movements. -/
theorem run_keeps_order_in_dropped_chord :
    (run .full (reliableEnv fun _ => ⟨0, 0⟩)
      [some [⟨.keyboard, 0, 0, evKey, keyLeftctrl, 1⟩, ⟨.mouse, 0, 1, evRel, relX, 5⟩],
        some [⟨.keyboard, 0, 2, evKey, keyC, 1⟩, ⟨.keyboard, 0, 3, evKey, keyLeftctrl, 0⟩]]
      ).2.eventLines.Sublist
    (run .full (reliableEnv fun _ => ⟨0, 0⟩)
      [some [⟨.keyboard, 0, 0, evKey, keyLeftctrl, 1⟩, ⟨.mouse, 0, 1, evRel, relX, 5⟩],
        some [⟨.keyboard, 0, 2, evKey, keyC, 1⟩, ⟨.keyboard, 0, 3, evKey, keyLeftctrl, 0⟩]]
      ).2.readEvents :=
  (run_eventLines_sublist_iff .full _ (by decide)).1 (by decide) _

end Record

end Evrp
