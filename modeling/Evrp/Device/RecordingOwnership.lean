import Evrp.Device.GrpcInputListenService

/-!
# Whose recording a call reads and stops

A StartRecording stops whatever runs and starts its own recording on the shared
listener. The calls of the session that was pre-empted keep arriving, and the
service does not ask whose recording they meet. What it does guarantee is that
a read returns only what the latest recording captured, since the descriptors of
every earlier one are closed, and that a stop ends only the recording it finds.
-/

namespace Evrp

namespace GrpcInputListenService

open LocalInputListener (Answers)

/-- Every session reads only from recordings it started. -/
def ReadsOwn (s : State) : Prop :=
  ∀ d ∈ s.delivered, s.starts[d.recording - 1]? = some d.session

/-- No session stops a recording that another session started after its own. -/
def StopsOwn (s : State) : Prop :=
  ∀ e ∈ s.ended, ∀ r, r + 1 < e.recording → s.starts[r]? = some e.session →
    s.starts[e.recording - 1]? = some e.session

/-- A returned event was captured by the recording that was the latest at that moment. -/
def Delivery.FromLatest (s : State) (d : Delivery) : Prop :=
  d.recording = d.latest ∧ 0 < d.latest ∧ d.latest ≤ s.starts.length ∧
    (d.recording, d.event) ∈ s.captured

/-- The call that stopped a recording has returned, the recording was the latest at that moment,
and if it still is nothing runs. -/
def Ending.Settled (s : State) (e : Ending) : Prop :=
  (∃ response, s.handlers[e.handler]? = some ⟨e.session, .returned response⟩) ∧
    e.recording = e.latest ∧ 0 < e.latest ∧ e.latest ≤ s.starts.length ∧
    (e.latest = s.starts.length → s.listener.listeningActive = false)

/-- The history of deliveries and stops. -/
structure State.Accounted (s : State) : Prop where
  started : s.listener.listeningActive = true → 0 < s.starts.length
  delivered : ∀ d ∈ s.delivered, d.FromLatest s
  ended : ∀ e ∈ s.ended, e.Settled s
  handlers : (s.ended.map Ending.handler).Nodup
  recordings : (s.ended.map Ending.latest).Pairwise (· < ·)

theorem accounted_initial (start : ℤ) : (initial start).Accounted :=
  ⟨nofun, nofun, nofun, List.nodup_nil, List.Pairwise.nil⟩

theorem Delivery.FromLatest.mono {s t : State} {d : Delivery} (hd : d.FromLatest s)
    (hstarts : s.starts.length ≤ t.starts.length) (hcaptured : ∀ c ∈ s.captured, c ∈ t.captured) :
    d.FromLatest t :=
  ⟨hd.1, hd.2.1, hd.2.2.1.trans hstarts, hcaptured _ hd.2.2.2⟩

/-- A call that has not returned has stopped nothing. -/
theorem State.Accounted.not_ended {s : State} (hs : s.Accounted) {i : ℕ} {h : Handler}
    (hi : s.handlers[i]? = some h) (hpc : ∀ response, h.pc ≠ .returned response) :
    ∀ e ∈ s.ended, e.handler ≠ i := by
  rintro e he rfl
  obtain ⟨⟨response, hr⟩, -⟩ := hs.ended e he
  rw [hi] at hr
  exact hpc response (congrArg Handler.pc (Option.some.inj hr))

/-- A step that reads and stops nothing: the calls that have stopped something stay as they are,
what is captured and started only grows, and the listener does not take up an old recording. -/
theorem accounted_frame {s t : State} (hs : s.Accounted)
    (hhandlers : ∀ e ∈ s.ended, t.handlers[e.handler]? = s.handlers[e.handler]?)
    (hstarts : s.starts.length ≤ t.starts.length) (hcaptured : ∀ c ∈ s.captured, c ∈ t.captured)
    (hdelivered : t.delivered = s.delivered) (hended : t.ended = s.ended)
    (hlisten : t.listener.listeningActive = true →
      s.starts.length < t.starts.length ∨ s.listener.listeningActive = true) : t.Accounted := by
  constructor
  · intro hl
    rcases hlisten hl with hlt | hl
    · omega
    · have := hs.started hl
      omega
  · rw [hdelivered]
    exact fun d hd => (hs.delivered d hd).mono hstarts hcaptured
  · rw [hended]
    intro e he
    obtain ⟨⟨response, hr⟩, hlatest, hpos, hle, hidle⟩ := hs.ended e he
    refine ⟨⟨response, (hhandlers e he).trans hr⟩, hlatest, hpos, hle.trans hstarts, fun heq => ?_⟩
    apply Bool.eq_false_iff.mpr
    intro hl
    rcases hlisten hl with hlt | hl
    · omega
    · rw [hidle (by omega)] at hl
      exact Bool.noConfusion hl
  · rw [hended]
    exact hs.handlers
  · rw [hended]
    exact hs.recordings

/-- The same for a move of one call that has not returned. -/
theorem accounted_goto {s t : State} (hs : s.Accounted) {i : ℕ} {h h' : Handler}
    (hi : s.handlers[i]? = some h) (hpc : ∀ response, h.pc ≠ .returned response)
    (hhandlers : t.handlers = s.handlers.set i h') (hstarts : s.starts.length ≤ t.starts.length)
    (hcaptured : t.captured = s.captured) (hdelivered : t.delivered = s.delivered)
    (hended : t.ended = s.ended)
    (hlisten : t.listener.listeningActive = true →
      s.starts.length < t.starts.length ∨ s.listener.listeningActive = true) : t.Accounted := by
  refine accounted_frame hs (fun e he => ?_) hstarts (fun c hc => hcaptured ▸ hc) hdelivered hended
    hlisten
  rw [hhandlers, List.getElem?_set_ne (hs.not_ended hi hpc e he).symm]

/-- What a read returns comes from the devices of the latest recording. -/
theorem fromLatest_of_mem_deliveries {s : State} (hs : s.Accounted) (hsound : s.Sound)
    {session : ℕ} {answers : Answers} {d : Delivery}
    (hd : d ∈ deliveries session s.starts.length
      (LocalInputListener.readInputEvents answers s.listener).2) : d.FromLatest s := by
  obtain ⟨-, -, -, hbatches⟩ := LocalInputListener.readInputEvents_spec answers hsound.owned
    hsound.captured
  obtain ⟨b, hb, hd⟩ := List.mem_flatMap.mp hd
  obtain ⟨ev, hev, rfl⟩ := List.mem_map.mp hd
  obtain ⟨hlisten, -, hrecording, hcaptured⟩ := hbatches b hb
  refine ⟨hrecording, hs.started hlisten, le_refl _, ?_⟩
  rw [hrecording]
  exact hcaptured ev (List.mem_filter.mp hev).1

theorem State.Sound.not_listening_of_cancel {s : State} (hs : s.Sound) :
    (LocalInputListener.cancelListening s.listener).listeningActive = false := by
  obtain ⟨-, hlisten, -⟩ : (LocalInputListener.cancelListening s.listener).Owned 0 ∧ _ :=
    LocalInputListener.cancelListening_spec hs.owned hs.captured
  exact hlisten

theorem accounted_handlerMove {s t : State} {i : ℕ} {h : Handler} {answers : Answers}
    (hs : s.Accounted) (hsound : s.Sound) (hi : s.handlers[i]? = some h)
    (hpc : ∀ response, h.pc ≠ .returned response) (hmove : HandlerMove s i h answers t) :
    t.Accounted := by
  have hcancelled := hsound.not_listening_of_cancel
  cases hmove with
  | move pc => exact accounted_goto hs hi hpc rfl (le_refl _) rfl rfl rfl Or.inr
  | store time pc => exact accounted_goto hs hi hpc rfl (le_refl _) rfl rfl rfl Or.inr
  | act pc => exact accounted_goto hs hi hpc rfl (le_refl _) rfl rfl rfl Or.inr
  | cancel pc =>
    refine accounted_goto hs hi hpc rfl (le_refl _) rfl rfl rfl fun hl => ?_
    exact absurd (hcancelled.symm.trans hl) Bool.false_ne_true
  | started kinds pc =>
    have hlength : s.starts.length < (s.starts ++ [h.session]).length := by
      rw [List.length_append, List.length_singleton]
      omega
    exact accounted_goto hs hi hpc rfl (Nat.le_of_lt hlength) rfl rfl rfl fun _ => Or.inl hlength
  | refused kinds pc _ hstart =>
    obtain ⟨-, hfail, -⟩ := LocalInputListener.startListening_spec answers (s.starts.length + 1)
      kinds hsound.owned hsound.captured
    exact accounted_goto hs hi hpc rfl (le_refl _) rfl rfl rfl fun hl =>
      Or.inr ((hfail hstart).2.symm.trans hl)
  | wait timeoutMs pc =>
    obtain ⟨-, hlisten, -⟩ := LocalInputListener.waitForInputEvent_spec answers timeoutMs
      hsound.owned hsound.captured
    exact accounted_goto hs hi hpc rfl (le_refl _) rfl rfl rfl fun hl =>
      Or.inr (hlisten.symm.trans hl)
  | read response =>
    obtain ⟨-, hlisten, -, -⟩ := LocalInputListener.readInputEvents_spec answers hsound.owned
      hsound.captured
    have hmoved : State.Accounted ({ s.act with
        listener := (LocalInputListener.readInputEvents answers s.listener).1 }.goto i h
          (.returned response)) :=
      accounted_goto hs hi hpc rfl (le_refl _) rfl rfl rfl fun hl =>
        Or.inr (hlisten.symm.trans hl)
    refine ⟨hmoved.started, fun d hd => ?_, hmoved.ended, hmoved.handlers, hmoved.recordings⟩
    rcases List.mem_append.mp hd with hd | hd
    · exact hmoved.delivered d hd
    · exact (fromLatest_of_mem_deliveries hs hsound hd).mono (le_refl _) fun _ hc => hc
  | stop response =>
    have hmoved : State.Accounted (s.cancelListening.goto i h (.returned response)) := by
      refine accounted_goto hs hi hpc rfl (le_refl _) rfl rfl rfl fun hl => ?_
      exact absurd (hcancelled.symm.trans hl) Bool.false_ne_true
    have hother := hs.not_ended hi hpc
    cases hcurrent : s.listener.current with
    | none =>
      simp only [endings, hcurrent, Option.toList_none, List.map_nil, List.append_nil]
      exact hmoved
    | some recording =>
      obtain ⟨hlatest, hlisten⟩ := hsound.owned.current_eq hcurrent
      simp only [endings, hcurrent, Option.toList_some, List.map_singleton]
      refine ⟨hmoved.started, hmoved.delivered, fun e he => ?_, ?_, ?_⟩
      · rcases List.mem_append.mp he with he | he
        · exact hmoved.ended e he
        · rw [List.mem_singleton.mp he]
          refine ⟨⟨response, ?_⟩, hlatest, hs.started hlisten, le_refl _, fun _ => hcancelled⟩
          exact List.getElem?_set_self (List.getElem?_eq_some_iff.mp hi).1
      · simp only [State.goto, List.map_append, List.map_singleton]
        refine List.nodup_append.mpr ⟨hs.handlers, List.pairwise_singleton _ _, ?_⟩
        intro j hj k hk
        obtain ⟨e, he, rfl⟩ := List.mem_map.mp hj
        rw [List.mem_singleton.mp hk]
        exact hother e he
      · simp only [State.goto, List.map_append, List.map_singleton]
        refine List.pairwise_append.mpr ⟨hs.recordings, List.pairwise_singleton _ _, ?_⟩
        intro r hr r' hr'
        obtain ⟨e, he, rfl⟩ := List.mem_map.mp hr
        rw [List.mem_singleton.mp hr']
        obtain ⟨-, -, -, hle, hidle⟩ := hs.ended e he
        refine Nat.lt_of_le_of_ne hle fun heq => ?_
        rw [hidle heq] at hlisten
        exact Bool.noConfusion hlisten

theorem accounted_step {timeoutMs : ℤ} {s t : State} {a : Label} (hs : s.Accounted)
    (hsound : s.Sound) (h : step timeoutMs s a = some t) : t.Accounted := by
  cases a with
  | tick ns =>
    obtain rfl := Option.some.inj h
    exact accounted_frame hs (fun _ _ => rfl) (le_refl _) (fun _ => id) rfl rfl Or.inr
  | arrive fd ev =>
    obtain ⟨f, -, h⟩ := Option.bind_eq_some_iff.mp h
    obtain ⟨listener, hlistener, rfl⟩ := Option.map_eq_some_iff.mp h
    obtain ⟨g, -, -, hlisten, -⟩ := LocalInputListener.arrive_spec hsound.owned hsound.captured
      hlistener
    exact accounted_frame hs (fun _ _ => rfl) (le_refl _) (fun c hc => List.mem_append_left _ hc)
      rfl rfl fun hl => Or.inr (hlisten.symm.trans hl)
  | request session status request =>
    obtain rfl := Option.some.inj h
    refine accounted_frame hs (fun e he => ?_) (le_refl _) (fun _ => id) rfl rfl Or.inr
    obtain ⟨⟨response, hr⟩, -⟩ := hs.ended e he
    exact List.getElem?_append_left (List.getElem?_eq_some_iff.mp hr).1
  | handler i isCancelled answers =>
    obtain ⟨handler, hi, h⟩ := Option.bind_eq_some_iff.mp h
    obtain ⟨hpc, hmove⟩ := handlerMove_of_step h
    exact accounted_handlerMove hs hsound hi hpc hmove
  | watchdog =>
    obtain rfl := Option.some.inj h
    cases hpc : s.watchdog <;> simp only [watchdogStep, hpc]
    case asleep =>
      split
      · exact hs
      · exact accounted_frame hs (fun _ _ => rfl) (le_refl _) (fun _ => id) rfl rfl Or.inr
    case cancel reading =>
      refine accounted_frame hs (fun _ _ => rfl) (le_refl _) (fun _ => id) rfl rfl fun hl => ?_
      exact absurd (hsound.not_listening_of_cancel.symm.trans hl) Bool.false_ne_true
    all_goals exact accounted_frame hs (fun _ _ => rfl) (le_refl _) (fun _ => id) rfl rfl Or.inr

/-- In every interleaving, each returned event was captured by the latest recording at that
moment, whoever started it, and each StopRecording call ends at most one recording: the latest
at that moment, and never one that is started later. -/
theorem reads_and_stops_meet_latest (timeoutMs start : ℤ) (labels : List Label) (t : State)
    (h : Machine.run (step timeoutMs) (initial start) labels = some t) :
    (∀ d ∈ t.delivered, d.recording = d.latest ∧ 0 < d.latest ∧ d.latest ≤ t.starts.length ∧
        (d.recording, d.event) ∈ t.captured) ∧
      (∀ e ∈ t.ended, e.recording = e.latest ∧ 0 < e.latest ∧ e.latest ≤ t.starts.length) ∧
      (t.ended.map Ending.handler).Nodup ∧ (t.ended.map Ending.latest).Pairwise (· < ·) := by
  have hinv : t.Accounted ∧ t.Sound :=
    Machine.invariant_run (step timeoutMs) (I := fun s => s.Accounted ∧ s.Sound)
      (fun _ _ _ hs h => ⟨accounted_step hs.1 hs.2 h, sound_step hs.2 h⟩)
      ⟨accounted_initial start, sound_initial start⟩ h
  refine ⟨hinv.1.delivered, fun e he => ?_, hinv.1.handlers, hinv.1.recordings⟩
  obtain ⟨-, hlatest, hpos, hle, -⟩ := hinv.1.ended e he
  exact ⟨hlatest, hpos, hle⟩

/-- Session 1 starts a recording, session 2 pre-empts it, a key is pressed, and the calls of
session 1 go on: a wait, a read and a stop. -/
def preemptedLabels : List Label :=
  callLabels 1 (.startRecording [.keyboard]) 0 5 ++
    callLabels 2 (.startRecording [.keyboard]) 1 6 ++
    [Label.arrive 7 ⟨0, 0, evKey, keyA, 1⟩] ++ callLabels 1 (.waitForInputEvent 0) 2 5 ++
    callLabels 1 .readInputEvents 3 5 ++ callLabels 1 .stopRecording 4 2

/-- The pre-empted session is handed the key of the other session's recording and ends it. -/
theorem preempted_session_reads_and_stops : ∃ t,
    Machine.run (step 0) (initial 0) preemptedLabels = some t ∧ t.starts = [1, 2] ∧
      t.delivered = [⟨1, 2, 2, .keyboard, ⟨0, 0, evKey, keyA, 1⟩⟩] ∧ t.ended = [⟨4, 1, 2, 2⟩] ∧
      ¬ ReadsOwn t ∧ ¬ StopsOwn t := by
  refine ⟨_, rfl, rfl, rfl, rfl, fun hreads => ?_, fun hstops => ?_⟩
  · have hread := hreads ⟨1, 2, 2, .keyboard, ⟨0, 0, evKey, keyA, 1⟩⟩ (List.mem_singleton_self _)
    exact absurd hread (by decide)
  · have hstop := hstops ⟨4, 1, 2, 2⟩ (List.mem_singleton_self _) 0 (by decide) rfl
    exact absurd hstop (by decide)

theorem reads_and_stops_meet_latest_preempted : ∃ t,
    Machine.run (step 0) (initial 0) preemptedLabels = some t ∧
      ∀ d ∈ t.delivered, d.recording = d.latest :=
  ⟨_, rfl, fun d hd => ((reads_and_stops_meet_latest 0 0 preemptedLabels _ rfl).1 d hd).1⟩

end GrpcInputListenService

end Evrp
